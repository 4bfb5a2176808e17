import Mathlib.Logic.Function.Basic
import PhpAsync.Core.LTS

/-!
# Constant expressions in the copy arena

Model of `thread_copy_arena_alloc`, `thread_copy_ast` and the constant expressions of
`thread_copy_zval` (thread.c:74-97, 206-246, 286-306). A constant expression is a header,
`zend_ast_ref`, with the root of the tree directly behind it; its copy is two requests
to an arena that opens a new block when a request does not fit.

**Hypothesis (`Fits`, about the arena and the tree before the copy).** The root fits
behind the header, in the current block or, if the header opens a new one, in that.
Otherwise the root stays behind in a block of its own (`header_loses_root`).

**Results.**
* `attached_iff`: the copies are neighbours exactly under the hypothesis.
* `copyAst_spec`: the copy of a tree denotes it, whatever is copied later.
* `constants_stay_attached`: every copied header is followed by its expression.

What literals and op arrays ask of the arena in between is any function of the block;
their contents are taken as they are. Sizes are those of a 64-bit build; memory does
not run out.
-/
namespace PhpAsync.L1.Arena
open PhpAsync.Core Function

variable {V : Type}

/-! ## The arena -/

/-- A block of the arena, counted from the first, and the offset in its data. A block has
a header of its own, so the end of one is not the start of another's data. -/
structure Addr where
  block : Nat
  offset : Nat
  deriving DecidableEq, Repr

/-- The current block. -/
structure Block where
  index : Nat
  size : Nat
  offset : Nat
  deriving DecidableEq, Repr

/-- mirrors thread.c:56, 63-72 -/
def init : Block := ⟨0, 64 * 1024, 0⟩

/-- `ZEND_MM_ALIGNED_SIZE`. -/
def aligned (size : Nat) : Nat := (size + 7) / 8 * 8

/-- mirrors thread.c:74-97 -/
def alloc (b : Block) (size : Nat) : Addr × Block :=
  if b.offset + aligned size ≤ b.size then (⟨b.index, b.offset⟩, { b with offset := b.offset + aligned size })
  else (⟨b.index + 1, 0⟩, ⟨b.index + 1, max (b.size * 2) (aligned size), aligned size⟩)

def allocs (b : Block) (sizes : List Nat) : Block := sizes.foldl (fun b n => (alloc b n).2) b

/-! ## Trees -/

mutual

/-- A constant expression; `v` is what a node has besides its children. `zval` is a literal
or the name of a constant. -/
inductive Ast (V : Type)
  | zval (v : V)
  | list (v : V) (children : Children V)
  | opArray (v : V)
  | callableConvert (v : V) (args : Ast V)
  | node (v : V) (children : Children V)

/-- Child pointers, some of them NULL. -/
inductive Children (V : Type)
  | nil
  | null (rest : Children V)
  | child (a : Ast V) (rest : Children V)

end

def Children.length : Children V → Nat
  | .nil => 0
  | .null rest | .child _ rest => rest.length + 1

/-- What the copy of a node asks for. -/
def Ast.size : Ast V → Nat
  | .zval _ => 24
  | .list _ children => 16 + 8 * children.length
  | .opArray _ => 16
  | .callableConvert _ _ => 24
  | .node _ children => 8 + 8 * children.length

/-- A copy in the arena. -/
inductive Cell (V : Type)
  | ref
  | zval (v : V)
  | list (v : V) (children : List (Option Addr))
  | opArray (v : V)
  | callableConvert (v : V) (args : Addr)
  | node (v : V) (children : List (Option Addr))

abbrev Mem (V : Type) := Addr → Option (Cell V)

structure St (V : Type) where
  block : Block
  mem : Mem V

def St.write (s : St V) (p : Addr) (c : Cell V) : St V := { s with mem := update s.mem p (some c) }

section Copy

-- what the copy of a literal or of an op array asks for
variable (asks : V → Block → List Nat)

mutual

/-- The copy of a node is written once its children have theirs; nothing reads it before.
mirrors thread.c:206-246 -/
def copyAst (s : St V) : Ast V → Addr × St V
  | .zval v =>
    let p := alloc s.block 24
    (p.1, St.write ⟨allocs p.2 (asks v p.2), s.mem⟩ p.1 (.zval v))
  | .list v children =>
    let p := alloc s.block (16 + 8 * children.length)
    let r := copyChildren ⟨p.2, s.mem⟩ children
    (p.1, r.2.write p.1 (.list v r.1))
  | .opArray v =>
    let p := alloc s.block 16
    (p.1, St.write ⟨allocs p.2 (asks v p.2), s.mem⟩ p.1 (.opArray v))
  | .callableConvert v args =>
    let p := alloc s.block 24
    let r := copyAst ⟨p.2, s.mem⟩ args
    (p.1, r.2.write p.1 (.callableConvert v r.1))
  | .node v children =>
    let p := alloc s.block (8 + 8 * children.length)
    let r := copyChildren ⟨p.2, s.mem⟩ children
    (p.1, r.2.write p.1 (.node v r.1))

def copyChildren (s : St V) : Children V → List (Option Addr) × St V
  | .nil => ([], s)
  | .null rest =>
    let r := copyChildren s rest
    (none :: r.1, r.2)
  | .child a rest =>
    let r := copyAst s a
    let rs := copyChildren r.2 rest
    (some r.1 :: rs.1, rs.2)

end

/-- `GC_AST`: the tree is read from just past the header. -/
def gcAst (p : Addr) : Addr := { p with offset := p.offset + 8 }

/-- The copies of the header and of the root.
mirrors thread.c:293-300 -/
def copyConstant (s : St V) (t : Ast V) : Addr × Addr × St V :=
  let h := alloc s.block 8
  (h.1, copyAst asks (St.write ⟨h.2, s.mem⟩ h.1 .ref) t)

/-- The arena with `xlat` for the headers copied. -/
structure Ctx (V : Type) extends St V where
  xlat : Nat → Option Addr

inductive Lbl where
  /-- any other request -/
  | alloc (size : Nat)
  /-- `thread_copy_zval` on a constant expression -/
  | constant (ref : Nat)

/-- `src` are the trees behind the headers of the source.
mirrors thread.c:286-306 -/
def step (src : Nat → Ast V) (w : Ctx V) : Lbl → Option (Ctx V)
  | .alloc size => some { w with block := (alloc w.block size).2 }
  | .constant ref =>
    match w.xlat ref with
    | some _ => some w
    | none =>
      let r := copyConstant asks w.toSt (src ref)
      some ⟨r.2.2, update w.xlat ref (some r.1)⟩

def lts (src : Nat → Ast V) : LTS (Ctx V) Lbl := .ofFn (· = ⟨⟨init, fun _ => none⟩, fun _ => none⟩) (step asks src)

end Copy

mutual

/-- The tree read from `p`. -/
def Denotes (m : Mem V) (p : Addr) : Ast V → Prop
  | .zval v => m p = some (.zval v)
  | .list v children => ∃ ps, m p = some (.list v ps) ∧ DenoteAll m ps children
  | .opArray v => m p = some (.opArray v)
  | .callableConvert v args => ∃ q, m p = some (.callableConvert v q) ∧ Denotes m q args
  | .node v children => ∃ ps, m p = some (.node v ps) ∧ DenoteAll m ps children

def DenoteAll (m : Mem V) (ps : List (Option Addr)) : Children V → Prop
  | .nil => ps = []
  | .null rest => ∃ qs, ps = none :: qs ∧ DenoteAll m qs rest
  | .child a rest => ∃ q qs, ps = some q :: qs ∧ Denotes m q a ∧ DenoteAll m qs rest

end

/-- The root fits behind the header. -/
def Fits (b : Block) (t : Ast V) : Prop :=
  b.offset + 8 + aligned t.size ≤ b.size ∨ (b.size < b.offset + 8 ∧ 8 + aligned t.size ≤ b.size * 2)

def Guard (src : Nat → Ast V) (w : Ctx V) : Lbl → Prop
  | .alloc _ => True
  | .constant ref => w.xlat ref = none → Fits w.block (src ref)

/-! ## Requests -/

/-- The addresses handed out so far. -/
def Used (b : Block) (p : Addr) : Prop := p.block < b.index ∨ (p.block = b.index ∧ p.offset < b.offset)

theorem size_pos (t : Ast V) : 0 < t.size := by
  cases t <;> simp only [Ast.size] <;> omega

theorem Used.alloc {b : Block} {p : Addr} (h : Used b p) (n : Nat) : Used (alloc b n).2 p := by
  unfold Arena.alloc Used at *
  split <;> dsimp only <;> omega

theorem Used.allocs {b : Block} {p : Addr} (h : Used b p) (sizes : List Nat) : Used (allocs b sizes) p := by
  induction sizes generalizing b with
  | nil => exact h
  | cons n sizes ih => exact ih (h.alloc n)

/-- What is handed out was not in use, and then is. -/
theorem alloc_fresh (b : Block) {n : Nat} (hn : 0 < n) :
    ¬ Used b (alloc b n).1 ∧ Used (alloc b n).2 (alloc b n).1 := by
  have : 0 < aligned n := by unfold aligned; omega
  unfold Arena.alloc Used
  split <;> dsimp only <;> omega

/-! ## What a copy keeps -/

/-- `t` has what `s` has. -/
def Extends (s t : St V) : Prop := ∀ p, Used s.block p → Used t.block p ∧ t.mem p = s.mem p

theorem Extends.trans {s t u : St V} (h : Extends s t) (h' : Extends t u) : Extends s u := fun p hp =>
  ⟨(h' p (h p hp).1).1, (h' p (h p hp).1).2.trans (h p hp).2⟩

/-- `m` has what was written between `s` and `t`. -/
def Agrees (s t : St V) (m : Mem V) : Prop := ∀ p, ¬ Used s.block p → Used t.block p → m p = t.mem p

/-- A request for a node, the copies of its parts, and the write of the node: the old is kept,
and who has the new finds the node and its parts. -/
theorem place (s : St V) {n : Nat} (hn : 0 < n) {r : St V} (hr : Extends ⟨(alloc s.block n).2, s.mem⟩ r) (c : Cell V) :
    Extends s (r.write (alloc s.block n).1 c) ∧ ∀ m, Agrees s (r.write (alloc s.block n).1 c) m →
      m (alloc s.block n).1 = some c ∧ Agrees ⟨(alloc s.block n).2, s.mem⟩ r m := by
  obtain ⟨hfree, hused⟩ := alloc_fresh s.block hn
  have hne : ∀ p, Used s.block p → p ≠ (alloc s.block n).1 := by
    rintro p hp rfl
    exact hfree hp
  refine ⟨fun p hp => ?_, fun m hm => ⟨?_, fun p hp hp' => ?_⟩⟩
  · obtain ⟨h₁, h₂⟩ := hr p (hp.alloc n)
    exact ⟨h₁, (update_of_ne (hne p hp) ..).trans h₂⟩
  · exact (hm _ hfree (hr _ hused).1).trans (update_self ..)
  · have hpn : p ≠ (alloc s.block n).1 := by
      rintro rfl
      exact hp hused
    exact (hm p (fun h => hp (h.alloc n)) hp').trans (update_of_ne hpn ..)

theorem extends_allocs (b : Block) (m : Mem V) (sizes : List Nat) : Extends ⟨b, m⟩ ⟨allocs b sizes, m⟩ :=
  fun _ hp => ⟨hp.allocs sizes, rfl⟩

variable (asks : V → Block → List Nat)

mutual

/-- **The copy of a tree denotes it**, in every memory that has what was written. -/
theorem copyAst_spec (s : St V) : (t : Ast V) → (copyAst asks s t).1 = (alloc s.block t.size).1 ∧
    Extends s (copyAst asks s t).2 ∧ ∀ m, Agrees s (copyAst asks s t).2 m → Denotes m (copyAst asks s t).1 t
  | .zval v => by
    obtain ⟨h₁, h₂⟩ := place s (n := 24) (by omega) (extends_allocs _ s.mem (asks v _)) (.zval v)
    exact ⟨rfl, h₁, fun m hm => (h₂ m hm).1⟩
  | .list v children => by
    obtain ⟨hr, hd⟩ := copyChildren_spec ⟨(alloc s.block (16 + 8 * children.length)).2, s.mem⟩ children
    obtain ⟨h₁, h₂⟩ := place s (by omega) hr (.list v _)
    exact ⟨rfl, h₁, fun m hm => ⟨_, (h₂ m hm).1, hd m (h₂ m hm).2⟩⟩
  | .opArray v => by
    obtain ⟨h₁, h₂⟩ := place s (n := 16) (by omega) (extends_allocs _ s.mem (asks v _)) (.opArray v)
    exact ⟨rfl, h₁, fun m hm => (h₂ m hm).1⟩
  | .callableConvert v args => by
    obtain ⟨-, hr, hd⟩ := copyAst_spec ⟨(alloc s.block 24).2, s.mem⟩ args
    obtain ⟨h₁, h₂⟩ := place s (by omega) hr (.callableConvert v _)
    exact ⟨rfl, h₁, fun m hm => ⟨_, (h₂ m hm).1, hd m (h₂ m hm).2⟩⟩
  | .node v children => by
    obtain ⟨hr, hd⟩ := copyChildren_spec ⟨(alloc s.block (8 + 8 * children.length)).2, s.mem⟩ children
    obtain ⟨h₁, h₂⟩ := place s (by omega) hr (.node v _)
    exact ⟨rfl, h₁, fun m hm => ⟨_, (h₂ m hm).1, hd m (h₂ m hm).2⟩⟩

theorem copyChildren_spec (s : St V) : (c : Children V) → Extends s (copyChildren asks s c).2 ∧
    ∀ m, Agrees s (copyChildren asks s c).2 m → DenoteAll m (copyChildren asks s c).1 c
  | .nil => ⟨fun _ hp => ⟨hp, rfl⟩, fun _ _ => rfl⟩
  | .null rest => by
    obtain ⟨hr, hd⟩ := copyChildren_spec s rest
    exact ⟨hr, fun m hm => ⟨_, rfl, hd m hm⟩⟩
  | .child a rest => by
    obtain ⟨-, ha, hda⟩ := copyAst_spec s a
    obtain ⟨hr, hd⟩ := copyChildren_spec (copyAst asks s a).2 rest
    refine ⟨ha.trans hr, fun m hm => ⟨_, _, rfl, hda m fun p hp hp' => ?_, hd m fun p hp hp' => ?_⟩⟩
    · exact (hm p hp (hr p hp').1).trans (hr p hp').2
    · exact hm p (fun h => hp (ha p h).1) hp'

end

/-! ## The header -/

/-- **The asserted equality.** The root is where `GC_AST` reads exactly if it fits behind the
header. -/
theorem attached_iff (s : St V) (t : Ast V) :
    (copyConstant asks s t).2.1 = gcAst (copyConstant asks s t).1 ↔ Fits s.block t := by
  have hpos : 0 < aligned t.size := by
    have := size_pos t
    unfold aligned
    omega
  have hroot : (copyConstant asks s t).2.1 = (alloc (alloc s.block 8).2 t.size).1 :=
    (copyAst_spec asks (St.write ⟨(alloc s.block 8).2, s.mem⟩ (alloc s.block 8).1 .ref) t).1
  have hhead : (copyConstant asks s t).1 = (alloc s.block 8).1 := rfl
  rw [hroot, hhead]
  unfold alloc Fits gcAst
  rw [show aligned 8 = 8 from rfl]
  have hne : ∀ i n : Nat, (⟨i + 1, 0⟩ : Addr) ≠ ⟨i, n⟩ := fun i _ h => by
    have : i + 1 = i := congrArg Addr.block h
    omega
  by_cases h₁ : s.block.offset + 8 ≤ s.block.size
  · rw [if_pos h₁]
    dsimp only
    split
    next h₂ => exact iff_of_true rfl (.inl h₂)
    next h₂ => exact iff_of_false (hne _ _) (by omega)
  · rw [if_neg h₁]
    dsimp only
    split
    next h₂ => exact iff_of_true rfl (by omega)
    next h₂ => exact iff_of_false (hne _ _) (by omega)

/-- The copy of a constant expression keeps the old, and is followed by its expression. -/
theorem copyConstant_spec (s : St V) (t : Ast V) (h : Fits s.block t) : Extends s (copyConstant asks s t).2.2 ∧
    ∀ m, Agrees s (copyConstant asks s t).2.2 m → Denotes m (gcAst (copyConstant asks s t).1) t := by
  have hroot := (attached_iff asks s t).2 h
  obtain ⟨hfree, hused⟩ := alloc_fresh s.block (n := 8) (by omega)
  obtain ⟨-, hr, hd⟩ := copyAst_spec asks (St.write ⟨(alloc s.block 8).2, s.mem⟩ (alloc s.block 8).1 .ref) t
  refine ⟨fun p hp => ?_, fun m hm => ?_⟩
  · have hp' : p ≠ (alloc s.block 8).1 := by
      rintro rfl
      exact hfree hp
    obtain ⟨h₁, h₂⟩ := hr p (hp.alloc 8)
    exact ⟨h₁, h₂.trans (update_of_ne hp' ..)⟩
  · rw [← hroot]
    exact hd m fun p hp => hm p fun h => hp (h.alloc 8)

variable {asks} {src : Nat → Ast V}

/-- Every header copied is followed by its expression, whatever is copied later. -/
def Attached (src : Nat → Ast V) (w : Ctx V) : Prop := ∀ ref h, w.xlat ref = some h →
  ∀ t : St V, Extends w.toSt t → Denotes t.mem (gcAst h) (src ref)

theorem attached_inductive : ((lts asks src).restrict (Guard src)).Inductive (Attached src) where
  init w hw := by
    rw [show w = _ from hw]
    exact fun ref h hx => nomatch hx
  step w l w' hw hs := by
    obtain ⟨hG, hs⟩ := hs
    cases l with
    | alloc size =>
      cases hs
      intro ref h hx t ht
      exact hw ref h hx t fun p hp => ht p (hp.alloc size)
    | constant ref =>
      unfold lts LTS.ofFn step at hs
      dsimp only at hs
      split at hs
      · cases hs
        exact hw
      next hnone =>
        cases hs
        obtain ⟨hext, hden⟩ := copyConstant_spec asks w.toSt (src ref) (hG hnone)
        intro ref' h hx t ht
        by_cases hr : ref' = ref
        · subst hr
          have hx' := (update_self ref' (some (copyConstant asks w.toSt (src ref')).1) w.xlat).symm.trans hx
          cases hx'
          exact hden t.mem fun p _ hp => (ht p hp).2
        · exact hw ref' h ((update_of_ne hr ..).symm.trans hx) t (hext.trans ht)

/-- **Copied constant expressions stay attached to their headers.** After any requests and
copies, each header copied is followed by the expression it had; and the copy of any
further one whose root fits behind its header has the root there. -/
theorem constants_stay_attached (asks : V → Block → List Nat) (src : Nat → Ast V) (w : Ctx V)
    (hr : ((lts asks src).restrict (Guard src)).Reachable w) :
    (∀ ref h, w.xlat ref = some h → Denotes w.mem (gcAst h) (src ref)) ∧
      ∀ t, Fits w.block t → (copyConstant asks w.toSt t).2.1 = gcAst (copyConstant asks w.toSt t).1 :=
  ⟨fun ref h hx => attached_inductive.reachable w hr ref h hx w.toSt fun _ hp => ⟨hp, rfl⟩,
    fun t => (attached_iff asks w.toSt t).2⟩

instance (b : Block) (t : Ast V) : Decidable (Fits b t) := inferInstanceAs (Decidable (_ ∨ _))

instance (src : Nat → Ast V) (w : Ctx V) : (l : Lbl) → Decidable (Guard src w l)
  | .alloc _ => isTrue trivial
  | .constant ref => inferInstanceAs (Decidable (w.xlat ref = none → Fits w.block (src ref)))

/-- A sum of two literals, each with a string of its own, copied where the header opens a
block. -/
theorem constants_stay_attached_sum : ∃ w : Ctx Nat, w.xlat 0 = some ⟨1, 0⟩ ∧
    Denotes w.mem ⟨1, 8⟩ (.node 1 (.child (.zval 2) (.child (.zval 3) .nil))) := by
  obtain ⟨w, hr, hx⟩ := LTS.existsG_from
    (f := step (V := Nat) (fun v _ => [v]) fun _ => .node 1 (.child (.zval 2) (.child (.zval 3) .nil)))
    (G := Guard fun _ => .node 1 (.child (.zval 2) (.child (.zval 3) .nil))) (P := fun w => w.xlat 0 = some ⟨1, 0⟩) ⟨⟨init, fun _ => none⟩, fun _ => none⟩
    [.alloc 65536, .constant 0] (by decide +kernel)
  exact ⟨w, hx, (constants_stay_attached _ _ w hr).1 0 _ hx⟩

/-- **Counterexample.** A header takes the last eight bytes of a block: the root is in the
next one, and behind the header there is nothing. -/
theorem header_loses_root : ∃ w : Ctx Nat, (lts (fun v _ => [v]) fun _ => .zval 2).Reachable w ∧
    ∃ h, w.xlat 0 = some h ∧ w.mem (gcAst h) = none ∧ ¬ Denotes w.mem (gcAst h) (.zval 2) := by
  obtain ⟨w, hr, hx, hm⟩ := LTS.exists_from (f := step (V := Nat) (fun v _ => [v]) fun _ => .zval 2)
    (P := fun w => w.xlat 0 = some ⟨0, 65528⟩ ∧ (w.mem (gcAst ⟨0, 65528⟩)).isNone)
    ⟨⟨init, fun _ => none⟩, fun _ => none⟩ [.alloc 65528, .constant 0] (by decide +kernel)
  have hm' := Option.isNone_iff_eq_none.1 hm
  refine ⟨w, hr, _, hx, hm', fun h => ?_⟩
  unfold Denotes at h
  rw [hm'] at h
  cases h

end PhpAsync.L1.Arena
