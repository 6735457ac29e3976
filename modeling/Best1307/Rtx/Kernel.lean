import Best1307.Rtx.DelayList

/-!
# The kernel

The threads, the mutexes and the scheduler. A service call, a tick or the resuming of a suspended kernel runs to its
end before the next one starts; when it ends, the thread in `next` becomes the one that runs. What the functions do to
the lists of threads is kept as the calls of the functions on these lists.
-/

namespace Best1307.Rtx

open DeltaQueue PriorityQueue

/-- What a thread that is blocked waits for, the upper half of `state` -/
inductive Wait
  | suspended
  | delay
  | join
  | threadFlags
  | eventFlags
  | mutex
  | semaphore
  | memoryPool
  | messageGet
  | messagePut
  deriving DecidableEq, Repr

/-- The objects that a thread with this state may be linked to. -/
def Wait.waitsFor : Wait → ObjectId → Bool
  | .eventFlags, .eventFlags _ | .mutex, .mutex _ | .semaphore, .semaphore _ | .memoryPool, .memoryPool _
  | .messageGet, .messageQueue _ | .messagePut, .messageQueue _ => true
  | _, _ => false

/-- The objects whose waiting threads an interrupt may wake up -/
def ObjectId.isPosted : ObjectId → Bool
  | .ready | .mutex _ => false
  | _ => true

inductive ThreadState
  | inactive
  | ready
  | running
  | blocked (wait : Wait)
  | terminated
  deriving DecidableEq, Repr

def ThreadState.isLive : ThreadState → Bool
  | .inactive | .terminated => false
  | _ => true

/-- Blocked for what an interrupt may bring -/
def ThreadState.isPosted : ThreadState → Bool
  | .blocked .threadFlags | .blocked .eventFlags | .blocked .semaphore | .blocked .memoryPool | .blocked .messageGet
  | .blocked .messagePut => true
  | _ => false

inductive KernelState
  | ready
  | running
  | locked
  | suspended
  deriving DecidableEq, Repr

def osOK : ℕ := 0
def osError : ℕ := 2 ^ 32 - 1
def osErrorTimeout : ℕ := 2 ^ 32 - 2
def osErrorResource : ℕ := 2 ^ 32 - 3
def osErrorParameter : ℕ := 2 ^ 32 - 4

def osPriorityIdle : Int := 1
def osPriorityISR : Int := 56

/-- The priority of the thread that runs the functions of the timers -/
def osTimerThreadPrio : Int := 40

def osRtxMutexLockLimit : ℕ := 255

/-! ### The lists and the states of the threads -/

/-- The lists with the calls that led to them, the object each thread is linked to, which `osRtxThreadListRoot` finds,
and the thread that runs next. -/
structure Sched where
  queues : ThreadQueues
  delays : Delays
  calls : List ListEvent
  delayCalls : List DelayEvent
  root : ThreadId → Option ObjectId
  state : ThreadId → ThreadState
  next : Option ThreadId

namespace Sched

variable (t : ThreadId) (s : Sched)

def init : Sched := ⟨.init, .init, [], [], fun _ => none, fun _ => .inactive, none⟩

def priority : Int := s.queues.priority t

def first (o : ObjectId) : Option ThreadId := (s.queues.queue o).head?

def rootAfter : ListEvent → ThreadId → Option ObjectId
  | .put o t => Function.update s.root t (some o)
  | .block t => Function.update s.root t (some .ready)
  | .get o => match s.first o with
      | none => s.root
      | some t => Function.update s.root t none
  | .remove t => Function.update s.root t none
  | .setPriority _ _ => s.root

def list (e : ListEvent) : Sched :=
  { s with queues := s.queues.apply e, calls := s.calls ++ [e], root := s.rootAfter e }

def delay (e : DelayEvent) : Sched := { s with delays := s.delays.apply e, delayCalls := s.delayCalls ++ [e] }

def setState (state : ThreadState) : Sched := { s with state := Function.update s.state t state }

def osRtxThreadReadyPut : Sched := (s.setState t .ready).list (.put .ready t)

def osRtxThreadBlock : Sched := (s.setState t .ready).list (.block t)

def osRtxThreadSwitch : Sched := { s.setState t .running with next := some t }

end Sched

/-- The attributes, `lock` and `owner_thread` -/
structure Mutex where
  valid : Bool
  recursive : Bool
  prioInherit : Bool
  robust : Bool
  lock : ℕ
  owner : ThreadId
  deriving DecidableEq, Repr

/-- `osRtxInfo`, the control blocks of the threads and the mutexes. `owned` is `mutex_list`, and `reg` the register R0
in which a thread finds the value of its service call. -/
structure Kernel extends Sched where
  curr : Option ThreadId
  kernel : KernelState
  tick : ℕ
  priorityBase : ThreadId → Int
  joinable : ThreadId → Bool
  threadJoin : ThreadId → Option ThreadId
  reg : ThreadId → ℕ
  mutex : ℕ → Mutex
  owned : ThreadId → List ℕ
  robinThread : Option ThreadId
  robinTick : ℕ
  robinTimeout : ℕ

namespace Kernel

variable (t : ThreadId) (m : ℕ) (k : Kernel)

/-! ### Switching -/

def setSched (s : Sched) : Kernel := { k with toSched := s }

def osRtxThreadDispatch : Option ThreadId → Kernel
  | none => match k.first .ready, k.curr with
      | some ready, some running =>
          if k.kernel = .running ∧ k.priority running < k.priority ready then
            k.setSched (((k.list (.remove ready)).osRtxThreadBlock running).osRtxThreadSwitch ready)
          else k
      | _, _ => k
  | some t => match k.curr with
      | none => k.setSched (k.osRtxThreadReadyPut t)
      | some running =>
          if k.kernel = .running ∧ k.priority running < k.priority t then
            k.setSched ((k.osRtxThreadBlock running).osRtxThreadSwitch t)
          else k.setSched (k.osRtxThreadReadyPut t)

def osRtxThreadWaitExit (ret : ℕ) (dispatch : Bool) : Kernel :=
  let k := { k with toSched := k.delay (.remove t), reg := Function.update k.reg t ret }
  if dispatch then k.osRtxThreadDispatch (some t) else k.setSched (k.osRtxThreadReadyPut t)

/-- `osRtxThreadWaitEnter`, with nothing where it fails -/
def osRtxThreadWaitEnter (wait : Wait) (timeout : ℕ) : Option Kernel :=
  match k.first .ready, k.curr with
  | some ready, some running =>
      if k.kernel = .running then
        some (k.setSched ((((k.setState running (.blocked wait)).delay (.insert running timeout)).list
          (.get .ready)).osRtxThreadSwitch ready))
      else none
  | _, _ => none

/-- What the objects do to let the running thread wait -/
def waitAt (o : ObjectId) (wait : Wait) (timeout : ℕ) : Option Kernel :=
  match k.curr with
  | none => none
  | some running => (k.osRtxThreadWaitEnter wait timeout).map fun k => k.setSched (k.list (.put o running))

/-- What the objects do to wake up the first thread that waits, or all -/
def wakeFirst (o : ObjectId) (ret : ℕ) (dispatch : Bool) : Kernel :=
  match k.first o with
  | none => k
  | some t => (k.setSched (k.list (.get o))).osRtxThreadWaitExit t ret dispatch

/-- A flag wakes up a thread that waits for it, wherever it stands in the list of its object. -/
def wakeOne (ret : ℕ) : Kernel := (k.setSched (k.list (.remove t))).osRtxThreadWaitExit t ret false

/-! ### Mutexes -/

def setMutex (mutex : Mutex) : Kernel := { k with mutex := Function.update k.mutex m mutex }

def own : Kernel :=
  { k.setMutex m { k.mutex m with owner := t, lock := 1 } with owned := Function.update k.owned t (m :: k.owned t) }

def disown : Kernel := { k with owned := Function.update k.owned t ((k.owned t).erase m) }

/-- The first thread that waits for the mutex becomes its owner. -/
def handOver : Kernel :=
  match k.first (.mutex m) with
  | none => k
  | some t => (k.wakeFirst (.mutex m) osOK false).own t m

/-- The loop of `osRtxMutexOwnerRelease` on one mutex -/
def releaseRobust : Kernel :=
  if (k.mutex m).robust then (k.setMutex m { k.mutex m with lock := 0 }).handOver m else k

def osRtxMutexOwnerRelease (mutexes : List ℕ) : Kernel := mutexes.foldl (fun k m => k.releaseRobust m) k

/-- The priority of the first thread in the list of a mutex, where the one that is woken up does not count. -/
def waitingPriority (wakeup : Option ThreadId) : Option Int :=
  let waiting := k.queues.queue (.mutex m)
  ((if waiting.head? = wakeup then waiting.tail else waiting).head?).map k.priority

/-- The priority of a thread with what it inherits from those that wait for its mutexes -/
def inheritedPriority (wakeup : Option ThreadId) : Int :=
  (k.owned t).foldl (fun priority m => match k.waitingPriority m wakeup with
    | none => priority
    | some waiting => max priority waiting) (k.priorityBase t)

/-- A new priority, if it is another one, and the thread is sorted into its list. -/
def changePriority (priority : Int) : Kernel :=
  if k.priority t = priority then k else k.setSched (k.list (.setPriority t priority))

/-- The owner gives up a mutex, and the priority that it inherits through it. -/
def giveUp : Kernel :=
  let k := k.disown t m
  if (k.mutex m).prioInherit then k.changePriority t (k.inheritedPriority t none) else k

/-- The source reads the first mutex of the owner without a check. There is one, as `wakeup` waits for it: `Owners`. -/
def osRtxMutexOwnerRestore (wakeup : ThreadId) : Kernel :=
  if (k.mutex m).prioInherit then
    k.changePriority (k.mutex m).owner (k.inheritedPriority (k.mutex m).owner (some wakeup))
  else k

def svcRtxMutexAcquire (timeout : ℕ) : ℕ × Kernel :=
  match k.curr with
  | none => (osError, k)
  | some thread =>
      if ¬ (k.mutex m).valid then (osErrorParameter, k)
      else if (k.mutex m).lock = 0 then (osOK, k.own thread m)
      else if (k.mutex m).recursive ∧ (k.mutex m).owner = thread then
        if (k.mutex m).lock = osRtxMutexLockLimit then (osErrorResource, k)
        else (osOK, k.setMutex m { k.mutex m with lock := (k.mutex m).lock + 1 })
      else if timeout = 0 then (osErrorResource, k)
      else
        let k := if (k.mutex m).prioInherit ∧ k.priority (k.mutex m).owner < k.priority thread then
          k.setSched (k.list (.setPriority (k.mutex m).owner (k.priority thread))) else k
        (osErrorTimeout, (k.waitAt (.mutex m) .mutex timeout).getD k)

/-- `svcRtxMutexRelease`, where the running thread, which is linked to nothing, gets its priority back -/
def svcRtxMutexRelease : ℕ × Kernel :=
  match k.curr with
  | none => (osError, k)
  | some thread =>
      if ¬ (k.mutex m).valid then (osErrorParameter, k)
      else if (k.mutex m).lock = 0 then (osErrorResource, k)
      else if (k.mutex m).owner ≠ thread then (osErrorResource, k)
      else
        let k := k.setMutex m { k.mutex m with lock := (k.mutex m).lock - 1 }
        if (k.mutex m).lock ≠ 0 then (osOK, k)
        else
          (osOK, ((k.giveUp thread m).handOver m).osRtxThreadDispatch none)

def wakeAll (o : ObjectId) (ret : ℕ) : Kernel :=
  (k.queues.queue o).foldl (fun k _ => k.wakeFirst o ret false) k

def svcRtxMutexDelete : ℕ × Kernel :=
  if ¬ (k.mutex m).valid then (osErrorParameter, k)
  else if (k.mutex m).lock = 0 then (osOK, k.setMutex m { k.mutex m with valid := false })
  else
    let k := ((k.giveUp (k.mutex m).owner m).wakeAll (.mutex m) osErrorResource).osRtxThreadDispatch none
    (osOK, k.setMutex m { k.mutex m with valid := false })

/-- `svcRtxMutexNew` on a control block that is not in use -/
def svcRtxMutexNew (recursive prioInherit robust : Bool) : Kernel :=
  k.setMutex m ⟨true, recursive, prioInherit, robust, 0, 0⟩

/-! ### Threads -/

/-- `osRtxThreadDelayTick` and the leap in `svcRtxKernelResume`, on one thread whose delay is over -/
def expire : Kernel :=
  let k := match k.state t, k.root t with
    | .blocked .mutex, some (.mutex m) => k.osRtxMutexOwnerRestore m t
    | _, _ => k
  k.setSched ((k.list (.remove t)).osRtxThreadReadyPut t)

/-- The threads that a call on the lists of delays takes out of them -/
def expired (e : DelayEvent) : List ThreadId := (k.delays.apply e).readied.drop k.delays.readied.length

/-- The delays of these threads are over. -/
def elapse (e : DelayEvent) : Kernel := (k.expired e).foldl (fun k t => k.expire t) (k.setSched (k.delay e))

/-- `svcRtxThreadNew`, where there is memory for it -/
def svcRtxThreadNew (priority : Int) (joinable : Bool) : Kernel :=
  if priority < osPriorityIdle ∨ osPriorityISR < priority then k
  else
    osRtxThreadDispatch { k with
      toSched := (k.setState t .ready).list (.setPriority t priority)
      priorityBase := Function.update k.priorityBase t priority
      joinable := Function.update k.joinable t joinable
      threadJoin := Function.update k.threadJoin t none
      owned := Function.update k.owned t [] } (some t)

def svcRtxThreadSetPriority (priority : Int) : ℕ × Kernel :=
  if k.state t = .inactive ∨ priority < osPriorityIdle ∨ osPriorityISR < priority then (osErrorParameter, k)
  else if k.state t = .terminated then (osErrorResource, k)
  else if k.priority t = priority then (osOK, k)
  else
    (osOK, osRtxThreadDispatch { k with
      toSched := k.list (.setPriority t priority)
      priorityBase := Function.update k.priorityBase t priority } none)

/-- The thread that runs goes behind its equals, and the first of them runs. -/
def rotate (running ready : ThreadId) : Kernel :=
  k.setSched (((k.list (.remove ready)).osRtxThreadReadyPut running).osRtxThreadSwitch ready)

def svcRtxThreadYield : ℕ × Kernel :=
  match k.first .ready, k.curr with
  | some ready, some running =>
      if k.kernel = .running ∧ k.priority ready = k.priority running then (osOK, k.rotate running ready) else (osOK, k)
  | _, _ => (osOK, k)

def switchToFirst : Kernel :=
  match k.first .ready with
  | none => k
  | some ready => k.setSched ((k.list (.get .ready)).osRtxThreadSwitch ready)

/-- The running thread cannot be stopped when nothing else may run. -/
def mustRun : Bool := k.kernel ≠ .running ∨ k.first .ready = none

def svcRtxThreadSuspend : ℕ × Kernel :=
  match k.state t with
  | .inactive => (osErrorParameter, k)
  | .terminated => (osErrorResource, k)
  | .running =>
      if k.mustRun then (osErrorResource, k)
      else
        let k := k.switchToFirst
        (osOK, k.setSched ((k.setState t (.blocked .suspended)).delay (.insert t osWaitForever)))
  | .ready =>
      (osOK, k.setSched (((k.list (.remove t)).setState t (.blocked .suspended)).delay (.insert t osWaitForever)))
  | .blocked _ =>
      (osOK, k.setSched ((((k.list (.remove t)).delay (.remove t)).setState t (.blocked .suspended)).delay
        (.insert t osWaitForever)))

def svcRtxThreadResume : ℕ × Kernel :=
  match k.state t with
  | .inactive => (osErrorParameter, k)
  | .blocked _ => (osOK, (k.setSched ((k.list (.remove t)).delay (.remove t))).osRtxThreadDispatch (some t))
  | _ => (osErrorResource, k)

def svcRtxThreadDetach : ℕ × Kernel :=
  if k.state t = .inactive then (osErrorParameter, k)
  else if ¬ k.joinable t then (osErrorResource, k)
  else if k.state t = .terminated then (osOK, k.setSched (k.setState t .inactive))
  else (osOK, { k with joinable := Function.update k.joinable t false })

def svcRtxThreadJoin : ℕ × Kernel :=
  match k.state t with
  | .inactive => (osErrorParameter, k)
  | .running => (osErrorResource, k)
  | .terminated => if k.joinable t then (osOK, k.setSched (k.setState t .inactive)) else (osErrorResource, k)
  | _ =>
      if ¬ k.joinable t then (osErrorResource, k)
      else match k.osRtxThreadWaitEnter .join osWaitForever with
        | none => (osErrorResource, k)
        | some k =>
            (osErrorResource, { k with
              threadJoin := Function.update k.threadJoin t k.curr
              joinable := Function.update k.joinable t false })

/-- What a thread leaves when it ends: its robust mutexes, and the thread that waits for its end -/
def leave : Kernel :=
  let k := k.osRtxMutexOwnerRelease (k.owned t)
  match k.threadJoin t with
  | none => k
  | some joining => k.osRtxThreadWaitExit joining osOK false

/-- The control block of a thread that has ended: it stays for the one that joins, or is free. -/
def bury : Kernel := k.setSched (k.setState t (if k.joinable t then .terminated else .inactive))

def svcRtxThreadExit : Kernel :=
  match k.curr with
  | none => k
  | some thread =>
      if k.mustRun then k
      else bury thread { ((k.leave thread).switchToFirst) with curr := none }

def svcRtxThreadTerminate : ℕ × Kernel :=
  match k.state t with
  | .inactive => (osErrorParameter, k)
  | .terminated => (osErrorResource, k)
  | .running =>
      if k.mustRun then (osErrorResource, k)
      else (osOK, bury t { ((k.leave t).switchToFirst) with curr := none })
  | .ready => (osOK, (((k.setSched (k.list (.remove t))).leave t).osRtxThreadDispatch none).bury t)
  | .blocked _ =>
      (osOK, (((k.setSched ((k.list (.remove t)).delay (.remove t))).leave t).osRtxThreadDispatch none).bury t)

def svcRtxDelay (ticks : ℕ) : ℕ × Kernel :=
  if ticks = 0 then (osOK, k) else (osOK, (k.osRtxThreadWaitEnter .delay ticks).getD k)

def svcRtxDelayUntil (ticks : ℕ) : ℕ × Kernel :=
  let ticks := (ticks + 2 ^ 32 - k.tick) % 2 ^ 32
  if ticks = 0 ∨ 0x7FFFFFFF < ticks then (osErrorParameter, k)
  else (osOK, (k.osRtxThreadWaitEnter .delay ticks).getD k)

/-! ### The kernel itself -/

/-- `svcRtxKernelStart`, with the two threads that `osRtxThreadStartup` makes -/
def svcRtxKernelStart (idle timer : ThreadId) : ℕ × Kernel :=
  if k.kernel ≠ .ready then (osError, k)
  else
    (osOK, { ((k.svcRtxThreadNew idle osPriorityIdle false).svcRtxThreadNew timer osTimerThreadPrio false).switchToFirst
      with kernel := .running })

def svcRtxKernelLock : ℕ × Kernel :=
  match k.kernel with
  | .running => (0, { k with kernel := .locked })
  | .locked => (1, k)
  | _ => (osError, k)

def svcRtxKernelUnlock : ℕ × Kernel :=
  match k.kernel with
  | .running => (0, k)
  | .locked => (1, { k with kernel := .running })
  | _ => (osError, k)

def svcRtxKernelRestoreLock (lock : Int) : ℕ × Kernel :=
  if k.kernel = .running ∨ k.kernel = .locked then
    if lock = 0 then (0, { k with kernel := .running })
    else if lock = 1 then (1, { k with kernel := .locked })
    else (osError, k)
  else (osError, k)

/-- `svcRtxKernelSuspend`, as far as the state of the kernel goes -/
def suspend : Kernel := if k.kernel = .running then { k with kernel := .suspended } else k

/-- `svcRtxKernelResume`, with the ticks that were slept -/
def resume (sleepTicks : ℕ) : Kernel :=
  if k.kernel = .suspended then
    osRtxThreadDispatch { ({ k with tick := (k.tick + sleepTicks) % 2 ^ 32 } : Kernel).elapse (.resume sleepTicks) with
      kernel := .running } none
  else k

/-- The end of `osRtxTick_Handler` -/
def roundRobin : Kernel :=
  if k.robinTimeout = 0 then k
  else if k.robinThread ≠ k.next then { k with robinThread := k.next, robinTick := k.robinTimeout }
  else
    let k := { k with robinTick := k.robinTick - 1 }
    if k.robinTick ≠ 0 ∨ k.kernel ≠ .running then k
    else match k.first .ready, k.robinThread with
      | some ready, some running =>
          if k.priority ready = k.priority running then
            { k.rotate running ready with robinThread := some ready, robinTick := k.robinTimeout }
          else k
      | _, _ => k

/-- `osRtxTick_Handler`, apart from the timers -/
def osRtxTick_Handler : Kernel :=
  ((({ k with tick := (k.tick + 1) % 2 ^ 32 } : Kernel).elapse .tick).osRtxThreadDispatch none).roundRobin

/-- The thread in `next` runs when the handler ends. -/
def contextSwitch : Kernel := { k with curr := k.next }

/-- A service call stores its value for the thread that made it, if that one still is. -/
def svc (p : ℕ × Kernel) : Kernel :=
  contextSwitch { p.2 with reg := match p.2.curr with
    | none => p.2.reg
    | some thread => Function.update p.2.reg thread p.1 }

/-- After `osKernelInitialize`, with the ticks that a thread runs before its equals -/
def init (robinTimeout : ℕ) : Kernel where
  toSched := .init
  curr := none
  kernel := .ready
  tick := 0
  priorityBase _ := 0
  joinable _ := false
  threadJoin _ := none
  reg _ := 0
  mutex _ := ⟨false, false, false, false, 0, 0⟩
  owned _ := []
  robinThread := none
  robinTick := 0
  robinTimeout := robinTimeout

end Kernel

/-- The service calls of threads, the tick, and the handler that does what interrupts have put off. Of the objects with
flags, tokens, blocks and messages they say only which thread waits and which is woken up. -/
inductive KernelEvent
  | start (idle timer : ThreadId)
  | new (t : ThreadId) (priority : Int) (joinable : Bool)
  | setPriority (t : ThreadId) (priority : Int)
  | yield
  | suspendThread (t : ThreadId)
  | resumeThread (t : ThreadId)
  | detach (t : ThreadId)
  | join (t : ThreadId)
  | exit
  | terminate (t : ThreadId)
  | delay (ticks : ℕ)
  | delayUntil (ticks : ℕ)
  | lock
  | unlock
  | restoreLock (lock : Int)
  | suspend
  | resume (sleepTicks : ℕ)
  | newMutex (m : ℕ) (recursive prioInherit robust : Bool)
  | acquire (m timeout : ℕ)
  | release (m : ℕ)
  | deleteMutex (m : ℕ)
  | waitFlags (timeout : ℕ)
  | wait (o : ObjectId) (wait : Wait) (timeout : ℕ)
  | wake (o : ObjectId)
  | wakeFlags (t : ThreadId) (flags : ℕ)
  | deleteObject (o : ObjectId)
  | post (woken : List (ThreadId × ℕ))
  | tick
  deriving DecidableEq, Repr

namespace Kernel

def step (k : Kernel) : KernelEvent → Kernel
  | .start idle timer => svc (k.svcRtxKernelStart idle timer)
  | .new t priority joinable => svc (t, k.svcRtxThreadNew t priority joinable)
  | .setPriority t priority => svc (k.svcRtxThreadSetPriority t priority)
  | .yield => svc k.svcRtxThreadYield
  | .suspendThread t => svc (k.svcRtxThreadSuspend t)
  | .resumeThread t => svc (k.svcRtxThreadResume t)
  | .detach t => svc (k.svcRtxThreadDetach t)
  | .join t => svc (k.svcRtxThreadJoin t)
  | .exit => svc (osOK, k.svcRtxThreadExit)
  | .terminate t => svc (k.svcRtxThreadTerminate t)
  | .delay ticks => svc (k.svcRtxDelay ticks)
  | .delayUntil ticks => svc (k.svcRtxDelayUntil ticks)
  | .lock => svc k.svcRtxKernelLock
  | .unlock => svc k.svcRtxKernelUnlock
  | .restoreLock lock => svc (k.svcRtxKernelRestoreLock lock)
  | .suspend => k.suspend
  | .resume sleepTicks => contextSwitch (k.resume sleepTicks)
  | .newMutex m recursive prioInherit robust => k.svcRtxMutexNew m recursive prioInherit robust
  | .acquire m timeout => svc (k.svcRtxMutexAcquire m timeout)
  | .release m => svc (k.svcRtxMutexRelease m)
  | .deleteMutex m => svc (k.svcRtxMutexDelete m)
  | .waitFlags timeout => svc (osErrorTimeout, (k.osRtxThreadWaitEnter .threadFlags timeout).getD k)
  | .wait o wait timeout => svc (osErrorTimeout, (k.waitAt o wait timeout).getD k)
  | .wake o => svc (osOK, k.wakeFirst o osOK true)
  | .wakeFlags t flags => svc (flags, k.osRtxThreadWaitExit t flags true)
  | .deleteObject o => svc (osOK, (k.wakeAll o osErrorResource).osRtxThreadDispatch none)
  | .post woken => contextSwitch ((woken.foldl (fun k p => k.wakeOne p.1 p.2) k).osRtxThreadDispatch none)
  | .tick => contextSwitch k.osRtxTick_Handler

/-- A thread that lives owns only mutexes that do not outlast it: others keep the link to its control block. -/
def MayEnd (t : ThreadId) (k : Kernel) : Prop := (k.state t).isLive → ∀ m ∈ k.owned t, (k.mutex m).robust

instance {t : ThreadId} {k : Kernel} : Decidable (k.MayEnd t) := inferInstanceAs (Decidable (_ → _))

/-- A new thread gets a control block that is free, and its attributes are words. One that waits for the end of another
is left to wait: the other keeps the link to it and wakes it up, whatever has become of it. And a thread does not end
with a mutex that is not robust. -/
def Allowed (k : Kernel) : KernelEvent → Prop
  | .start idle timer => k.state idle = .inactive ∧ k.state timer = .inactive ∧ idle ≠ timer
  | .new t _ _ => k.state t = .inactive
  | .suspendThread t | .resumeThread t => k.state t ≠ .blocked .join
  | .exit => ∀ t ∈ k.curr, k.MayEnd t
  | .terminate t => k.state t ≠ .blocked .join ∧ k.MayEnd t
  | .newMutex m _ _ _ => (k.mutex m).valid = false
  | .delay ticks => ticks < 2 ^ 32
  | .acquire _ timeout => timeout < 2 ^ 32
  | .waitFlags timeout => timeout ≠ 0 ∧ timeout < 2 ^ 32
  | .wait o wait timeout => o.isPosted ∧ wait.waitsFor o ∧ timeout ≠ 0 ∧ timeout < 2 ^ 32
  | .wake o | .deleteObject o => o.isPosted
  | .wakeFlags t _ => k.state t = .blocked .threadFlags
  | .post woken => (woken.map Prod.fst).Nodup ∧ ∀ p ∈ woken, (k.state p.1).isPosted
  | _ => True

instance Allowed.decidable (k : Kernel) : (e : KernelEvent) → Decidable (k.Allowed e)
  | .start idle timer =>
      inferInstanceAs (Decidable (k.state idle = .inactive ∧ k.state timer = .inactive ∧ idle ≠ timer))
  | .new t _ _ => inferInstanceAs (Decidable (k.state t = .inactive))
  | .suspendThread t | .resumeThread t => inferInstanceAs (Decidable (k.state t ≠ .blocked .join))
  | .exit => inferInstanceAs (Decidable (∀ t ∈ k.curr, k.MayEnd t))
  | .terminate t => inferInstanceAs (Decidable (k.state t ≠ .blocked .join ∧ k.MayEnd t))
  | .newMutex m _ _ _ => inferInstanceAs (Decidable ((k.mutex m).valid = false))
  | .delay ticks => inferInstanceAs (Decidable (ticks < 2 ^ 32))
  | .acquire _ timeout => inferInstanceAs (Decidable (timeout < 2 ^ 32))
  | .waitFlags timeout => inferInstanceAs (Decidable (timeout ≠ 0 ∧ timeout < 2 ^ 32))
  | .wait o wait timeout =>
      inferInstanceAs (Decidable (o.isPosted ∧ wait.waitsFor o ∧ timeout ≠ 0 ∧ timeout < 2 ^ 32))
  | .wake o | .deleteObject o => inferInstanceAs (Decidable o.isPosted)
  | .wakeFlags t _ => inferInstanceAs (Decidable (k.state t = .blocked .threadFlags))
  | .post woken => inferInstanceAs (Decidable ((woken.map Prod.fst).Nodup ∧ ∀ p ∈ woken, (k.state p.1).isPosted))
  | .setPriority _ _ | .yield | .detach _ | .join _ | .delayUntil _ | .lock | .unlock | .restoreLock _
  | .suspend | .resume _ | .release _ | .deleteMutex _ | .tick => inferInstanceAs (Decidable True)

end Kernel

end Best1307.Rtx
