import SysuOs.IntrusiveList

/-! The part of `ProgramManager` that decides which program runs: the program control blocks, the
lists they are linked in, the schedulers, and the calls that make, block and end programs. A pointer to
a control block is its slot in `PCB_SET`; what an allocation returns is an argument of the call that
makes it, 0 or `false` for a failure. -/

namespace SysuOs.Programs

def MAX_PROGRAM_AMOUNT : Nat := 16

inductive ProgramStatus where
  | CREATED
  | RUNNING
  | READY
  | BLOCKED
  | DEAD
  deriving DecidableEq, Repr

inductive SchedulerType where
  | RR
  | FIFS
  deriving DecidableEq, Repr

/-- The part of a `PCB` that the scheduling of programs uses. -/
structure PCB where
  status : ProgramStatus
  priority : Int
  pid : Nat
  ticks : Int
  ticksPassedBy : Int
  pageDirectoryAddress : Nat
  parentPid : Nat
  retValue : Int
  needFork : Bool
  argv : Nat
  deriving DecidableEq, Repr

/-- A control block after `memset`. -/
def PCB.zero : PCB where
  status := .CREATED
  priority := 0
  pid := 0
  ticks := 0
  ticksPassedBy := 0
  pageDirectoryAddress := 0
  parentPid := 0
  retValue := 0
  needFork := false
  argv := 0

/-- The list items: the heads of the lists and the two tags of every control block. -/
inductive Item where
  | readyPrograms (sType : SchedulerType)
  | allPrograms
  | waiting (semaphore : Nat)
  | tagInGeneralList (pcb : Nat)
  | tagInAllList (pcb : Nat)
  deriving DecidableEq, Repr

/-- `ListItem2PCB`. -/
def Item.pcb : Item → Option Nat
  | tagInGeneralList p => some p
  | tagInAllList p => some p
  | _ => none

structure ProgramManager where
  links : Links Item
  pcbSet : Nat → PCB
  pcbSetStatus : Nat → Bool
  running : Option Nat
  sType : SchedulerType

namespace ProgramManager

def setPCB (s : ProgramManager) (p : Nat) (pcb : PCB) : ProgramManager :=
  { s with pcbSet := Function.update s.pcbSet p pcb }

def setStatus (s : ProgramManager) (p : Nat) (status : ProgramStatus) : ProgramManager :=
  s.setPCB p { s.pcbSet p with status }

/-! ### The schedulers -/

/-- `RRScheduler::enqueue` and `FIFSScheduler::enqueue`. -/
def enqueue (fuel : Nat) (s : ProgramManager) (readyThread : Nat) : Outcome ProgramManager := do
  let links ← s.links.pushBack fuel (.readyPrograms s.sType) (.tagInGeneralList readyThread)
  pure { s with links }

/-- `RRScheduler::pickNext` and `FIFSScheduler::pickNext`. -/
def pickNext (s : ProgramManager) : Option Nat × ProgramManager :=
  ((s.links.front (.readyPrograms s.sType)).bind Item.pcb,
    { s with links := s.links.popFront (.readyPrograms s.sType) })

/-- `RRScheduler::onTick` and `FIFSScheduler::onTick`: whether to call `schedule`. -/
def onTick (s : ProgramManager) : Bool × ProgramManager :=
  match s.running with
  | none => (true, s)
  | some running =>
      let pcb := s.pcbSet running
      if pcb.status ≠ .RUNNING then (true, s)
      else match s.sType with
        | .RR =>
            -- the counters are `int`s
            let ticks := (pcb.ticks - 1).bmod (2 ^ 32)
            (decide (ticks ≤ 0),
              s.setPCB running { pcb with ticks, ticksPassedBy := (pcb.ticksPassedBy + 1).bmod (2 ^ 32) })
        | .FIFS => (false, s)

/-- `RRScheduler::MESA_Wakeup` and `FIFSScheduler::MESA_Wakeup`. -/
def mesaWakeup (s : ProgramManager) (program : Nat) : ProgramManager :=
  { s with links := s.links.pushFront (.readyPrograms s.sType) (.tagInGeneralList program) }

/-- `ProgramManager::MESA_WakeUp`. -/
def MESA_WakeUp (s : ProgramManager) (program : Nat) : ProgramManager :=
  (s.setStatus program .READY).mesaWakeup program

/-- `schedule`. A dead program must find another one to run. -/
def schedule (fuel : Nat) (s : ProgramManager) : Outcome ProgramManager :=
  match s.running with
  | none => .halt
  | some cur => do
      let isDEAD := (s.pcbSet cur).status = .DEAD
      let (next, s) := s.pickNext
      match next with
      | some next =>
          let s := s.setStatus next .RUNNING
          let s ← if isDEAD then pure s else (s.setStatus cur .READY).enqueue fuel cur
          pure { s with running := some next }
      | none => if isDEAD then .halt else pure s

/-- `c_time_interrupt_handler`. -/
def timeInterrupt (fuel : Nat) (s : ProgramManager) : Outcome ProgramManager :=
  let (cond, s) := s.onTick
  if cond then s.schedule fuel else pure s

/-! ### Making and ending programs -/

/-- `allocatePCB`: the first free slot, cleared. -/
def allocatePCB (s : ProgramManager) : Option (Nat × ProgramManager) :=
  match (List.range MAX_PROGRAM_AMOUNT).find? fun i => !s.pcbSetStatus i with
  | none => none
  | some i =>
      some (i, { s with pcbSetStatus := Function.update s.pcbSetStatus i true }.setPCB i .zero)

/-- The pid of the running program, 0 if there is none. -/
def runningPid (s : ProgramManager) : Nat := (s.running.map fun p => (s.pcbSet p).pid).getD 0

/-- What `executeThread` writes to a cleared control block. -/
def initPCB (s : ProgramManager) (thread parentPid : Nat) (priority : Int) (argv : Nat) : ProgramManager :=
  s.setPCB thread { s.pcbSet thread with
    status := .CREATED, priority, ticks := (priority * 10).bmod (2 ^ 32), ticksPassedBy := 0, pid := thread,
    parentPid, argv }

/-- `executeThread`; `argv` is the page for the arguments. -/
def executeThread (fuel : Nat) (s : ProgramManager) (priority : Int) (needEnqueue : Bool) (argv : Nat) :
    Outcome (Option Nat × ProgramManager) :=
  let parentPid := s.runningPid
  match s.allocatePCB with
  | none => .ret (none, s)
  | some (thread, s) =>
      let s := s.initPCB thread parentPid priority argv
      if argv = 0 then
        .ret (none, { s with pcbSetStatus := Function.update s.pcbSetStatus thread false })
      else do
        let links ← s.links.pushBack fuel .allPrograms (.tagInAllList thread)
        let s := { s with links }
        let s ← if needEnqueue then (s.setStatus thread .READY).enqueue fuel thread else pure s
        pure (some thread, s)

/-- `executeProcess` of a program whose `entry` has been found. -/
def executeProcess (fuel : Nat) (s : ProgramManager) (priority : Int) (argv pageDirectory : Nat)
    (userVirtual : Bool) : Outcome (Option Nat × ProgramManager) := do
  let (pid, s) ← s.executeThread fuel priority false argv
  match pid with
  | none => pure (none, s)
  | some process =>
      let s := s.setPCB process { s.pcbSet process with pageDirectoryAddress := pageDirectory }
      if pageDirectory = 0 ∨ userVirtual = false then pure (none, s.setStatus process .DEAD)
      else do
        let s ← (s.setStatus process .READY).enqueue fuel process
        pure (some process, s)

/-- What `copyProcess` writes to the control block of the child. -/
def copyPCB (s : ProgramManager) (parent child : Nat) : ProgramManager :=
  s.setPCB child { s.pcbSet child with
    status := .READY
    parentPid := (s.pcbSet parent).pid
    priority := (s.pcbSet parent).priority
    ticks := (s.pcbSet parent).ticks
    ticksPassedBy := (s.pcbSet parent).ticksPassedBy }

/-- What the allocations of `fork` return: the page for the arguments, the page directory, the pages of
`cloneFrom` and the page tables of `setupCOWPages`. -/
structure ForkAllocations where
  argv : Nat
  pageDirectory : Nat
  cloneFrom : Bool
  setupCOWPages : Bool

/-- `fork`. -/
def fork (fuel : Nat) (s : ProgramManager) (r : ForkAllocations) : Outcome (Option Nat × ProgramManager) :=
  match s.running with
  | none => .halt
  | some parent =>
      if (s.pcbSet parent).pageDirectoryAddress = 0 then .ret (none, s)
      else do
        let (pid, s) ← s.executeThread fuel 0 true r.argv
        match pid with
        | none => pure (none, s)
        | some process =>
            let s := s.setPCB process { s.pcbSet process with
              needFork := true, pageDirectoryAddress := r.pageDirectory }
            if r.pageDirectory = 0 then pure (none, s.setStatus process .DEAD)
            else do
              -- a `cloneFrom` that fails leaves the stack pool of the child with the length 0
              Outcome.ASSERT (r.cloneFrom = true)
              let s := s.copyPCB parent process
              if r.setupCOWPages then pure (some process, s)
              else pure (none, s.setStatus process .DEAD)

/-- The loop of `exit` over `allPrograms`: the children of the running program go to pid 1. -/
def orphanLoop (running : Nat) : Nat → Option Item → ProgramManager → Outcome ProgramManager
  | 0, _, _ => .diverge
  | _ + 1, none, s => .ret s
  | fuel + 1, some item, s =>
      match item.pcb with
      | none => .halt
      | some child =>
          orphanLoop running fuel (s.links.next item)
            (if child ≠ running ∧ (s.pcbSet child).parentPid = (s.pcbSet running).pid then
              s.setPCB child { s.pcbSet child with parentPid := 1 }
            else s)

/-- `exit`. -/
def exit (fuel : Nat) (s : ProgramManager) (ret : Int) : Outcome ProgramManager :=
  match s.running with
  | none => .halt
  | some program => do
      let s := s.setPCB program { s.pcbSet program with retValue := ret, status := .DEAD }
      let s ← orphanLoop program fuel (s.links.front .allPrograms) s
      s.schedule fuel

/-- `program_exit`, the return of a thread. -/
def programExit (fuel : Nat) (s : ProgramManager) : Outcome ProgramManager :=
  match s.running with
  | none => .halt
  | some thread =>
      let s := s.setStatus thread .DEAD
      if (s.pcbSet thread).pid ≠ 0 then s.schedule fuel else .halt

/-- `releasePCB`; the release of the page for the arguments is not followed here. -/
def releasePCB (fuel : Nat) (s : ProgramManager) (program : Nat) : Outcome ProgramManager := do
  let s := s.setPCB program { s.pcbSet program with argv := 0 }
  let links ← s.links.erase fuel .allPrograms (.tagInAllList program)
  pure { s with links, pcbSetStatus := Function.update s.pcbSetStatus program false }

/-- What one scan of `waitpid` finds. -/
inductive Scan where
  | noChild
  | noZombie
  | zombie (pcb : Nat)
  deriving DecidableEq, Repr

/-- The loop of `waitpid` over `allPrograms`; `pid` is `none` for -1. -/
def scanLoop (s : ProgramManager) (pid : Option Nat) : Nat → Option Item → Scan → Outcome Scan
  | 0, _, _ => .diverge
  | _ + 1, none, found => .ret found
  | fuel + 1, some item, found =>
      match item.pcb with
      | none => .halt
      | some pcb =>
          if (s.pcbSet pcb).parentPid = s.runningPid ∧ (pid = none ∨ pid = some (s.pcbSet pcb).pid) then
            if (s.pcbSet pcb).status = .DEAD then .ret (.zombie pcb)
            else s.scanLoop pid fuel (s.links.next item) .noZombie
          else s.scanLoop pid fuel (s.links.next item) found

/-- One round of the loop of `waitpid`: it returns -1, it waits, or it returns the pid of a zombie. -/
def waitpid (fuel : Nat) (s : ProgramManager) (pid : Option Nat) : Outcome ProgramManager := do
  match ← s.scanLoop pid fuel (s.links.front .allPrograms) .noChild with
  | .noChild => pure s
  | .noZombie => s.schedule fuel
  | .zombie zombie => s.releasePCB fuel zombie

/-- `execve` of a program whose `entry` and arguments have been read. -/
def execve (fuel : Nat) (s : ProgramManager) (pageDirectory : Nat) (userVirtual : Bool) :
    Outcome ProgramManager :=
  match s.running with
  | none => .halt
  | some process => do
      Outcome.ASSERT ((s.pcbSet process).pageDirectoryAddress ≠ 0)
      let s := s.setPCB process { s.pcbSet process with pageDirectoryAddress := pageDirectory }
      if pageDirectory = 0 then pure (s.setStatus process .DEAD)
      else if userVirtual = false then (s.setStatus process .DEAD).schedule fuel
      else pure s

/-! ### Boot -/

/-- `initialize`. -/
def initial (sType : SchedulerType) : ProgramManager where
  links := { next := fun _ => none, previous := fun _ => none }
  pcbSet := fun _ => .zero
  pcbSetStatus := fun _ => false
  running := none
  sType := sType

/-- The first thread is made, taken from the ready queue and made the running program. -/
def boot (fuel : Nat) (sType : SchedulerType) (argv : Nat) : Outcome ProgramManager := do
  let (pid, s) ← (initial sType).executeThread fuel 1 true argv
  match pid with
  | none => .halt
  | some _ =>
      let (first, s) := s.pickNext
      match first with
      | none => .halt
      | some first => pure { s.setStatus first .RUNNING with running := some first }

end ProgramManager

end SysuOs.Programs
