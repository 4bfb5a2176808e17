import PhpAsync.L2Channel.Order
import PhpAsync.L2Channel.Drain
import PhpAsync.L2Channel.Registry
import PhpAsync.L2Pool.Backed
import PhpAsync.L2Pool.Stranded
import PhpAsync.L2Pool.Custody
import PhpAsync.L2TaskGroup.BackPressure
import PhpAsync.L2TaskGroup.Delivery
import PhpAsync.L2TaskGroup.Iteration
import PhpAsync.L2Coroutine.Outcome
import PhpAsync.L2Await.FailFast
import PhpAsync.L2Future.Settle
import PhpAsync.L2Future.Remote
import PhpAsync.L2Scope.Told
import PhpAsync.L2Scope.Cancellation
import PhpAsync.L2Scope.Closing
import PhpAsync.L2Scope.Routing
import PhpAsync.L2Coroutine.Protect
import PhpAsync.L2Waker.References
import PhpAsync.L2Registry.Spawn
import PhpAsync.L2Scheduler.Deadlock
import PhpAsync.L2Scheduler.ExitException
import PhpAsync.L2Scheduler.Resumption
import PhpAsync.L2ThreadChannel.Fifo
import PhpAsync.L2ThreadChannel.References
import PhpAsync.L2ThreadPool.Cancellation
import PhpAsync.L2ThreadPool.Counters
import PhpAsync.L2Reactor.Completion
import PhpAsync.L2Reactor.Notify
import PhpAsync.L2Reactor.Receive
import PhpAsync.L2Reactor.Exec
import PhpAsync.L2Reactor.Watcher
import PhpAsync.L1Runtime.Resize
import PhpAsync.L1Runtime.Arena
