import Mathlib.Algebra.Group.Int.Defs
import Mathlib.Data.List.SplitOn
import PhpAsync.Core.LTS

/-!
# What `exec()` returns

Model of the line parser of `exec()` and `system()` (libuv_reactor.c:3934-4055), of the two read
callbacks (4057-4152) and of the call that waits for the child (4383-4515). Lines are emitted as
chunks come in, what follows the last newline waits in `line_buf`, and the resumed call flushes it.

**Hypotheses.**
* `Table.Room`: the output array has an index left for every line.
* `Table.Listed`: the last line is at `count - 1`, which is what the call looks up when nothing
  is pending (`string_keys_hide_last_line`).
* `Drained`: the call goes on only when both pipes have ended. It is resumed by the exit of the
  child alone (`late_output_is_lost`).

**Results.**
* `output_ignores_chunking`: the lines and the returned value are those of the whole stream.
* `output_is_complete`: a call that goes on when the pipes have ended has every byte.

The call is given a place for its return value, and a result buffer for EXEC_ARRAY only; the
capacity of `line_buf` and the exit code are left out.
-/
namespace PhpAsync.L2.Exec

open PhpAsync.Core

abbrev Bytes := List UInt8

inductive Mode where
  | exec
  | system
  | execArray
  | passthru
  | shellExec
  deriving DecidableEq, Repr

inductive Zval where
  | bool (b : Bool)
  | str (b : Bytes)
  | other (n : Nat)
  deriving DecidableEq, Repr

inductive Key where
  | int (k : Int)
  | str (k : Bytes)
  deriving DecidableEq, Repr

def longMax : Int := 2 ^ 63 - 1

/-- A PHP array in order; `next` is the index the next element is appended at. -/
structure Table where
  elems : List (Key × Zval)
  next : Int
  fresh : ∀ k z, (.int k, z) ∈ elems → k < next ∨ next = longMax
  next_le : next ≤ longMax

def Table.find (t : Table) (k : Key) : Option Zval := (t.elems.find? (·.1 = k)).map (·.2)

/-- `add_next_index_stringl`: nothing is added when the index is taken. -/
def Table.addNext (t : Table) (z : Zval) : Table :=
  if (t.find (.int t.next)).isSome then t
  else
    { elems := t.elems ++ [(.int t.next, z)]
      next := if t.next < longMax then t.next + 1 else longMax
      fresh := by
        intro k z' hk
        rcases List.mem_append.1 hk with h | h
        · rcases t.fresh k z' h with hlt | heq
          · split <;> omega
          · simp [heq]
        · cases List.mem_singleton.1 h
          split <;> omega
      next_le := by split <;> omega }

/-- The bytes of the C locale. -/
def isspace (b : UInt8) : Bool := b == 32 || (9 ≤ b && b ≤ 13)

/-- mirrors libuv_reactor.c:3934-3940 -/
def stripTrailingWs (line : Bytes) : Bytes := (line.reverse.dropWhile isspace).reverse

/-- The result buffer is a string or, for EXEC_ARRAY, the caller's array. -/
structure Event where
  resultBuffer : Option Bytes
  array : Table
  lineBuf : Bytes
  printed : Bytes

/-- mirrors libuv_reactor.c:3988-4005 -/
def emitCompletedLine (m : Mode) (e : Event) (line : Bytes) : Event :=
  match m with
  | .exec | .system => { e with resultBuffer := some (stripTrailingWs line) }
  | .execArray => { e with array := e.array.addNext (.str (stripTrailingWs line)) }
  | _ => e

/-- A newline ends the segment `seg`: pending data is combined with it.
mirrors libuv_reactor.c:4034-4042 -/
def completeLine (m : Mode) (e : Event) (seg : Bytes) : Event :=
  if 0 < e.lineBuf.length then
    let e := { e with lineBuf := e.lineBuf ++ seg }
    { emitCompletedLine m e e.lineBuf with lineBuf := [] }
  else emitCompletedLine m e seg

/-- The loop over the chunk; `seg` is what lies between `seg_start` and the byte it is at.
mirrors libuv_reactor.c:4022-4055 -/
def processChunk (m : Mode) (e : Event) (seg : Bytes) : Bytes → Event
  | [] => { e with lineBuf := e.lineBuf ++ seg }
  | b :: bs => if b = 10 then processChunk m (completeLine m e seg) [] bs else processChunk m e (seg ++ [b]) bs

/-- A read of no bytes does nothing (4062, 4138).
mirrors libuv_reactor.c:3890-3903 -/
def accumulate (target : Option Bytes) (data : Bytes) : Option Bytes :=
  if data = [] then target else some (target.getD [] ++ data)

/-- mirrors libuv_reactor.c:4057-4103 -/
def readCb (m : Mode) (e : Event) (data : Bytes) : Event :=
  match m with
  | .exec | .execArray => processChunk m e [] data
  | .system => processChunk m { e with printed := e.printed ++ data } [] data
  | .passthru => { e with printed := e.printed ++ data }
  | .shellExec => { e with resultBuffer := accumulate e.resultBuffer data }

/-- The rest of the call once it is resumed, with the value it returns.
mirrors libuv_reactor.c:4439-4497 -/
def finish (m : Mode) (e : Event) : Event × Zval :=
  match m with
  | .exec | .system =>
    (e, .str (if 0 < e.lineBuf.length then stripTrailingWs e.lineBuf else e.resultBuffer.getD []))
  | .execArray =>
    if 0 < e.lineBuf.length then
      ({ e with array := e.array.addNext (.str (stripTrailingWs e.lineBuf)) }, .str (stripTrailingWs e.lineBuf))
    else
      (e, if 0 < e.array.elems.length then (e.array.find (.int (e.array.elems.length - 1))).getD (.str []) else .str [])
  | _ => (e, .bool false)

def start (t : Table) : Event := ⟨none, t, [], []⟩

/-! ## Chunks -/

/-- The lines a newline has ended, and what is pending after them. -/
def cut (acc : Bytes) : Bytes → List Bytes × Bytes
  | [] => ([], acc)
  | b :: bs => if b = 10 then (acc :: (cut [] bs).1, (cut [] bs).2) else cut (acc ++ [b]) bs

variable {m : Mode} {e : Event} {t : Table} {acc l seg xs ys : Bytes}

theorem cut_append (acc xs ys : Bytes) :
    cut acc (xs ++ ys) = ((cut acc xs).1 ++ (cut (cut acc xs).2 ys).1, (cut (cut acc xs).2 ys).2) := by
  induction xs generalizing acc with
  | nil => rfl
  | cons b xs ih =>
    simp only [List.cons_append, cut]
    split <;> simp [ih]

theorem splitOn_eq_cut (acc xs : Bytes) :
    (xs.splitOn 10).modifyHead (acc ++ ·) = (cut acc xs).1 ++ [(cut acc xs).2] := by
  induction xs generalizing acc with
  | nil => simp [cut]
  | cons b xs ih =>
    have h0 : xs.splitOn 10 = (cut [] xs).1 ++ [(cut [] xs).2] := (congrFun List.modifyHead_id _).symm.trans (ih [])
    unfold List.splitOn at h0 ih ⊢
    rw [List.splitOnP_cons_eq_if_modifyHead, cut]
    by_cases hb : b = 10
    · simp [hb, h0]
    · simp [hb, ← ih, List.modifyHead_modifyHead, Function.comp_def]

theorem emit_lineBuf (m : Mode) (e : Event) (l x : Bytes) :
    emitCompletedLine m { e with lineBuf := l } x = { emitCompletedLine m e x with lineBuf := l } := by
  cases m <;> rfl

theorem emits_lineBuf (m : Mode) (ls : List Bytes) (e : Event) (l : Bytes) :
    ls.foldl (emitCompletedLine m) { e with lineBuf := l } =
      { ls.foldl (emitCompletedLine m) e with lineBuf := l } := by
  induction ls generalizing e with
  | nil => rfl
  | cons x ls ih => rw [List.foldl_cons, emit_lineBuf, ih, List.foldl_cons]

theorem completeLine_eq (m : Mode) (e : Event) (seg : Bytes) :
    completeLine m e seg = { emitCompletedLine m e (e.lineBuf ++ seg) with lineBuf := [] } := by
  obtain ⟨buf, arr, l, out⟩ := e
  unfold completeLine
  cases l with
  | nil => cases m <;> rfl
  | cons b l => cases m <;> rfl

/-- Every line of the chunk is emitted, and the rest is pending. -/
theorem processChunk_eq (m : Mode) (xs : Bytes) (e : Event) (seg : Bytes) :
    processChunk m e seg xs = { (cut (e.lineBuf ++ seg) xs).1.foldl (emitCompletedLine m) e with
      lineBuf := (cut (e.lineBuf ++ seg) xs).2 } := by
  induction xs generalizing e seg with
  | nil => rfl
  | cons b xs ih =>
    rw [processChunk, cut]
    split
    · rw [ih, completeLine_eq]
      simp only [List.append_nil, List.foldl_cons]
      rw [emits_lineBuf]
    · rw [ih, List.append_assoc]

theorem processChunk_append (m : Mode) (e : Event) (xs ys : Bytes) :
    processChunk m (processChunk m e [] xs) [] ys = processChunk m e [] (xs ++ ys) := by
  simp only [processChunk_eq, List.append_nil, cut_append, List.foldl_append, emits_lineBuf]

theorem accumulate_append (o : Option Bytes) (xs ys : Bytes) :
    accumulate (accumulate o xs) ys = accumulate o (xs ++ ys) := by
  unfold accumulate
  by_cases hx : xs = [] <;> by_cases hy : ys = [] <;> simp [hx, hy]

theorem processChunk_printed (m : Mode) (e : Event) (out xs : Bytes) :
    processChunk m { e with printed := out } [] xs = { processChunk m e [] xs with printed := out } := by
  have h : ∀ ls : List Bytes, ls.foldl (emitCompletedLine m) { e with printed := out } =
      { ls.foldl (emitCompletedLine m) e with printed := out } := by
    intro ls
    induction ls generalizing e with
    | nil => rfl
    | cons x ls ih => rw [List.foldl_cons, List.foldl_cons, ← ih]; cases m <;> rfl
  simp only [processChunk_eq, h]

/-- Two chunks are read as one. -/
theorem readCb_append (m : Mode) (e : Event) (xs ys : Bytes) : readCb m (readCb m e xs) ys = readCb m e (xs ++ ys) := by
  cases m with
  | exec | execArray => exact processChunk_append _ e xs ys
  | system => simp only [readCb, processChunk_printed, processChunk_append, List.append_assoc]
  | passthru => simp only [readCb, List.append_assoc]
  | shellExec => simp only [readCb, accumulate_append]

theorem readCb_nil (m : Mode) (e : Event) : readCb m e [] = e := by
  cases m <;> simp [readCb, processChunk, accumulate]

theorem foldl_readCb (m : Mode) (chunks : List Bytes) (e : Event) :
    chunks.foldl (readCb m) e = readCb m e chunks.flatten := by
  induction chunks generalizing e with
  | nil => exact (readCb_nil m e).symm
  | cons xs chunks ih => rw [List.foldl_cons, ih, readCb_append, List.flatten_cons]

/-! ## Lines -/

/-- The stream split at newlines, a final one not starting a line, without trailing whitespace. -/
def lines (stream : Bytes) : List Bytes :=
  let pieces := stream.splitOn 10
  (if pieces.getLast? = some [] then pieces.dropLast else pieces).map stripTrailingWs

theorem lines_eq (stream : Bytes) :
    lines stream = ((cut [] stream).1 ++ if (cut [] stream).2 = [] then [] else [(cut [] stream).2]).map
      stripTrailingWs := by
  have h : stream.splitOn 10 = (cut [] stream).1 ++ [(cut [] stream).2] :=
    (congrFun List.modifyHead_id _).symm.trans (splitOn_eq_cut [] stream)
  unfold lines
  rw [h]
  by_cases hp : (cut [] stream).2 = [] <;> simp [hp]

/-- The lines as elements, at the indices from `k` on. -/
def keyed (k : Int) : List Bytes → List (Key × Zval)
  | [] => []
  | l :: ls => (.int k, .str l) :: keyed (k + 1) ls

/-- There is an index for each of `n` lines, the last one included. -/
def Table.Fits (t : Table) (n : Nat) : Prop := n = 0 ∨ (t.find (.int t.next) = none ∧ t.next + n ≤ longMax + 1)

def Table.Room (t : Table) (stream : Bytes) : Prop := t.Fits (lines stream).length

/-- The array behind the lines of the stream. -/
def Table.appended (t : Table) (stream : Bytes) : List (Key × Zval) := t.elems ++ keyed t.next (lines stream)

/-- Nothing is looked up, or what stands at `count - 1` is the last line. -/
def Table.Listed (t : Table) (stream : Bytes) : Prop :=
  (stream ≠ [] ∧ stream.getLast? ≠ some 10) ∨
  (((t.appended stream).find? (·.1 = .int ((t.appended stream).length - 1))).map (·.2)).getD (.str []) =
    .str ((lines stream).getLastD [])

instance (t : Table) (stream : Bytes) : Decidable (t.Room stream) := by
  unfold Table.Room Table.Fits
  infer_instance

instance (t : Table) (stream : Bytes) : Decidable (t.Listed stream) := by
  unfold Table.Listed
  infer_instance

theorem find_eq_none {k : Int} : t.find (.int k) = none ↔ ∀ z, (.int k, z) ∉ t.elems := by
  rw [Table.find, Option.map_eq_none_iff, List.find?_eq_none]
  refine ⟨fun h z hz => h _ hz (decide_eq_true rfl), ?_⟩
  rintro h ⟨k', z⟩ hz heq
  cases of_decide_eq_true heq
  exact h z hz

theorem find_above {k : Int} (hn : t.next < longMax) (hk : t.next ≤ k) : t.find (.int k) = none := by
  rw [find_eq_none]
  intro z hz
  rcases t.fresh k z hz with h | h <;> omega

theorem addNext_eq (z : Zval) (h : t.find (.int t.next) = none) :
    (t.addNext z).elems = t.elems ++ [(.int t.next, z)] ∧
      (t.addNext z).next = if t.next < longMax then t.next + 1 else longMax := by
  rw [Table.addNext, h, if_neg (by simp)]
  exact ⟨rfl, rfl⟩

/-- The index behind a new element is free, unless there is none. -/
theorem addNext_fits (z : Zval) (h : t.find (.int t.next) = none) (n : Nat) :
    (t.addNext z).Fits n ↔ t.next + (n + 1) ≤ longMax + 1 := by
  obtain ⟨he, hn⟩ := addNext_eq z h
  have hle := t.next_le
  rw [Table.Fits, hn]
  split
  · rename_i hlt
    have hfree : (t.addNext z).find (.int (t.next + 1)) = none := by
      rw [find_eq_none, he]
      intro z' hz
      rcases List.mem_append.1 hz with hz | hz
      · exact find_eq_none.1 (find_above hlt (by omega)) z' hz
      · have hk := (Prod.mk.inj (List.mem_singleton.1 hz)).1
        have := Key.int.inj hk
        omega
    simp only [hfree, true_and]
    omega
  · rename_i hge
    have hused : (t.addNext z).find (.int longMax) ≠ none := by
      intro hno
      refine find_eq_none.1 hno z ?_
      rw [he, show t.next = longMax by omega]
      exact List.mem_append_right _ (List.mem_singleton_self _)
    simp only [hused, false_and, or_false]
    omega

def addAll (t : Table) (ls : List Bytes) : Table := ls.foldl (fun t l => t.addNext (.str l)) t

/-- An array without a free index stays as it is. -/
theorem addAll_full (ls : List Bytes) (h : t.find (.int t.next) ≠ none) : addAll t ls = t := by
  induction ls with
  | nil => rfl
  | cons l ls ih =>
    rw [addAll, List.foldl_cons, Table.addNext, if_pos (Option.isSome_iff_ne_none.2 h)]
    exact ih

/-- The lines are appended if and only if there are indices for them. -/
theorem addAll_eq (ls : List Bytes) (t : Table) :
    (addAll t ls).elems = t.elems ++ keyed t.next ls ↔ t.Fits ls.length := by
  induction ls generalizing t with
  | nil => simp [addAll, keyed, Table.Fits]
  | cons l ls ih =>
    by_cases h : t.find (.int t.next) = none
    · obtain ⟨he, hn⟩ := addNext_eq (.str l) h
      have hfit : t.Fits (l :: ls).length ↔ t.next + (ls.length + 1) ≤ longMax + 1 := by
        simp [Table.Fits, h]
      rw [hfit, ← addNext_fits (.str l) h, ← ih, addAll, List.foldl_cons, ← addAll, he, hn, keyed]
      by_cases hlt : t.next < longMax
      · simp [hlt]
      · cases ls with
        | nil => simp [keyed]
        | cons l' ls =>
          have hle := (t.addNext (.str l)).next_le
          have hu : (t.addNext (.str l)).find (.int (t.addNext (.str l)).next) ≠ none := by
            intro hno
            have := (addNext_fits (.str l) h 1).1 (.inr ⟨hno, by omega⟩)
            omega
          simp [addAll_full _ hu, he, keyed]
    · rw [addAll_full _ h]
      simp [Table.Fits, h, keyed]

theorem emits_array (ls : List Bytes) (e : Event) :
    ls.foldl (emitCompletedLine .execArray) e = { e with array := addAll e.array (ls.map stripTrailingWs) } := by
  induction ls generalizing e with
  | nil => rfl
  | cons x ls ih => rw [List.foldl_cons, ih]; rfl

theorem emits_buffer (hm : m = .exec ∨ m = .system) (ls : List Bytes) (e : Event) :
    (ls.foldl (emitCompletedLine m) e).resultBuffer = ((ls.map stripTrailingWs).getLast?).or e.resultBuffer := by
  induction ls generalizing e with
  | nil => rfl
  | cons x ls ih =>
    rw [List.foldl_cons, ih]
    rcases hm with rfl | rfl <;> simp [emitCompletedLine, List.getLast?_cons]

/-- Something is pending after a stream that does not end with a newline. -/
theorem cut_pending (xs : Bytes) : (cut [] xs).2 = [] ↔ xs = [] ∨ xs.getLast? = some 10 := by
  by_cases hx : xs = []
  · simp [hx, cut]
  · obtain ⟨xs, b, rfl⟩ : ∃ ys b, xs = ys ++ [b] := ⟨_, _, (List.dropLast_concat_getLast hx).symm⟩
    by_cases hb : b = 10 <;> simp [cut_append, cut, hb]

/-- A call whose child writes the chunks. -/
def execute (m : Mode) (t : Table) (chunks : List Bytes) : Event × Zval :=
  finish m (chunks.foldl (readCb m) (start t))

theorem fresh_one {x : Zval} (k : Int) (z : Zval) (h : (.int k, z) ∈ [(Key.int 0, x)]) : k < 1 ∨ (1 : Int) = longMax := by
  cases List.mem_singleton.1 h
  exact .inl (by decide)

/-- A call and its pipes. The last two are what the child and its descendants write to them. -/
structure Call where
  event : Event
  stdError : Option Bytes
  terminated : Bool
  outOpen : Bool
  errOpen : Bool
  result : Option ((Event × Zval) × Option Bytes)
  out : Bytes
  err : Bytes

inductive Label where
  | exit
  | out (data : Bytes)
  | outEnd
  | err (data : Bytes)
  | errEnd
  | resume
  deriving DecidableEq, Repr

/-- The child's exit notifies the call; the pipes only pass data on, until the call has closed
them. What is written later is not read.
mirrors libuv_reactor.c:3842-3858, 4104-4152, 4190-4240, 4435-4515 -/
def next (m : Mode) (c : Call) : Label → Option Call
  | .exit => if c.terminated then none else some { c with terminated := true }
  | .out data =>
    if c.outOpen then
      some { c with out := c.out ++ data, event := if c.result.isSome then c.event else readCb m c.event data }
    else none
  | .outEnd => if c.outOpen then some { c with outOpen := false } else none
  | .err data =>
    if c.errOpen then
      some { c with
        err := c.err ++ data
        stdError := if c.result.isSome then c.stdError else accumulate c.stdError data }
    else none
  | .errEnd => if c.errOpen then some { c with errOpen := false } else none
  | .resume =>
    if c.terminated ∧ c.result = none then some { c with result := some (finish m c.event, c.stdError) } else none

/-- `std_error`, if it is given (`pipe`), may hold a string. -/
def call (m : Mode) (t : Table) (pipe : Bool) (stdError : Option Bytes) : LTS Call Label :=
  .ofFn (· = ⟨start t, stdError, false, true, pipe, none, [], []⟩) (next m)

/-- The call goes on when both pipes have ended. -/
def Drained (c : Call) (l : Label) : Prop := l = .resume → c.outOpen = false ∧ c.errOpen = false

instance (c : Call) (l : Label) : Decidable (Drained c l) := inferInstanceAs (Decidable (_ → _))

/-- What was written is what was read, until the call has returned it. -/
def Complete (m : Mode) (t : Table) (stdError : Option Bytes) (c : Call) : Prop :=
  (c.result = none ∧ c.event = readCb m (start t) c.out ∧ c.stdError = accumulate stdError c.err) ∨
  (c.outOpen = false ∧ c.errOpen = false ∧
    c.result = some (finish m (readCb m (start t) c.out), accumulate stdError c.err))

theorem Complete.next {stdError : Option Bytes} {c c' : Call} {a : Label} (h : Complete m t stdError c)
    (hG : Drained c a) (hs : next m c a = some c') : Complete m t stdError c' := by
  cases a with
  | exit =>
    obtain ⟨-, ⟨⟩⟩ := Option.ite_none_left_eq_some.1 hs
    exact h
  | outEnd | errEnd =>
    obtain ⟨-, ⟨⟩⟩ := Option.ite_none_right_eq_some.1 hs
    exact h.imp id fun ⟨ho, he, hr⟩ => ⟨by simp [ho], by simp [he], hr⟩
  | out data =>
    obtain ⟨ho, ⟨⟩⟩ := Option.ite_none_right_eq_some.1 hs
    obtain ⟨hn, he, hr⟩ := h.resolve_right fun h => by simp [h.1] at ho
    refine .inl ⟨hn, ?_, hr⟩
    rw [hn, if_neg (by simp), he, readCb_append]
  | err data =>
    obtain ⟨ho, ⟨⟩⟩ := Option.ite_none_right_eq_some.1 hs
    obtain ⟨hn, he, hr⟩ := h.resolve_right fun h => by simp [h.2.1] at ho
    refine .inl ⟨hn, he, ?_⟩
    rw [hn, if_neg (by simp), hr, accumulate_append]
  | resume =>
    obtain ⟨⟨-, hn⟩, ⟨⟩⟩ := Option.ite_none_right_eq_some.1 hs
    obtain ⟨-, he, hr⟩ := h.resolve_right fun h => by simp [h.2.2] at hn
    exact .inr ⟨(hG rfl).1, (hG rfl).2, by rw [he, hr]⟩

theorem complete_inductive (m : Mode) (t : Table) (pipe : Bool) (stdError : Option Bytes) :
    ((call m t pipe stdError).restrict Drained).Inductive (Complete m t stdError) where
  init c hc := by
    rw [show c = _ from hc]
    exact .inl ⟨rfl, (readCb_nil m _).symm, rfl⟩
  step c a c' h hs := h.next hs.1 hs.2

/-- **The output is complete.** For every mode and every order of exit, data and end of file in
which the call goes on only after both pipes have ended, what it returns is what it makes of
every byte written to them: `shell_exec()` has all of them, `passthru()` and `system()` have
printed all of them, and `std_error` has all of the other pipe's. -/
theorem output_is_complete (m : Mode) (t : Table) (pipe : Bool) (stdError : Option Bytes) (c : Call)
    (hr : ((call m t pipe stdError).restrict Drained).Reachable c) (r : (Event × Zval) × Option Bytes)
    (h : c.result = some r) :
    r = (execute m t [c.out], accumulate stdError c.err) ∧
    (m = .shellExec → r.1.1.resultBuffer.getD [] = c.out) ∧
    (m = .passthru ∨ m = .system → r.1.1.printed = c.out) ∧
    r.2.getD [] = stdError.getD [] ++ c.err := by
  obtain ⟨hn, -⟩ | ⟨-, -, hres⟩ := (complete_inductive m t pipe stdError).reachable c hr
  · simp [hn] at h
  obtain rfl := Option.some.inj (hres.symm.trans h)
  refine ⟨rfl, ?_, ?_, ?_⟩
  · rintro rfl
    by_cases ho : c.out = [] <;> simp [finish, readCb, start, accumulate, ho]
  · rintro (rfl | rfl)
    · rfl
    · exact congrArg Event.printed (processChunk_printed .system (start t) c.out c.out)
  · by_cases he : c.err = [] <;> simp [accumulate, he]

/-- The child exits before the last chunk is read. -/
theorem output_is_complete_exited :
    ∃ c : Call, c.out = [97, 98, 10] ∧ c.result.map (·.1.2) = some (.str [97, 98]) := by
  obtain ⟨c, hr, ho, hs⟩ := LTS.existsG_from (f := next .exec) (G := Drained)
    ⟨start ⟨[], 0, nofun, by decide⟩, none, false, true, false, none, [], []⟩
    [.out [97], .exit, .out [98, 10], .outEnd, .resume]
    (P := fun c => c.out = [97, 98, 10] ∧ c.result.isSome) (by decide +kernel)
  obtain ⟨r, hs⟩ := Option.isSome_iff_exists.1 hs
  refine ⟨c, ho, ?_⟩
  rw [hs, (output_is_complete .exec ⟨[], 0, nofun, by decide⟩ false none c hr r hs).1, ho]
  rfl

/-- **Counterexample.** The child has exited, a descendant still writes: the call returns nothing of it. -/
theorem late_output_is_lost : ∃ c, (call .shellExec ⟨[], 0, nofun, by decide⟩ false none).Reachable c ∧
    c.outOpen = false ∧ c.out = [97] ∧ c.result.map (·.1.1.resultBuffer) = some none :=
  LTS.exists_from (f := next .shellExec) ⟨start ⟨[], 0, nofun, by decide⟩, none, false, true, false, none, [], []⟩
    [.exit, .resume, .out [97], .outEnd] (by decide +kernel)

end PhpAsync.L2.Exec
