/-
# `RingChannel` — the whole development
-/
import RingChannel.Lib.Ledger
import RingChannel.Lib.SlotMap
import RingChannel.Lib.Run
import RingChannel.Lib.Scan
import RingChannel.Lib.OverQueue
import RingChannel.Lib.Simulation
import RingChannel.Lib.Exchanger
import RingChannel.Lib.RwLock
import RingChannel.Atomic
import RingChannel.Buffer
import RingChannel.Threads
import RingChannel.Waitlist
import RingChannel.Clients
import RingChannel.Exchange
import RingChannel.Emptiness
import RingChannel.Control
import RingChannel.Channel
import RingChannel.Transitions
import RingChannel.Endpoints
import RingChannel.Bookkeeping
import RingChannel.Lifetime
import RingChannel.Accounting
import RingChannel.Fifo
import RingChannel.Answers
import RingChannel.Wakers
import RingChannel.Whereabouts
import RingChannel.Disconnect
import RingChannel.WakeLoop
import RingChannel.Conservation
import RingChannel.Wakeups
import RingChannel.Blocking
import RingChannel.Sharing
import RingChannel.Patience
import RingChannel.Progress
import RingChannel.Locking
import RingChannel.Settling
import RingChannel.Delivery
import RingChannel.Bare
import RingChannel.Builds
import RingChannel.Sequential
import RingChannel.Sessions
import RingChannel.Overflow
import RingChannel.Faces
import RingChannel.Words
import RingChannel.Solo
