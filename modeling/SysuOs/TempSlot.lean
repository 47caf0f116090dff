import SysuOs.Regular

/-! Who may use the page at `kernelVirtual.startAddress`, the one temporary slot of `mapTemp`.
A function of the kernel is given by the sequences of actions it can perform: the interrupt flag,
the processor and the slot, with everything else one silent action. Conditions on data are left
open, so that each branch of the source is a branch here. A path that ends in a failed `ASSERT`,
a `PANIC` or `asm_halt` is left out at the point where the machine stops. -/

namespace SysuOs.TempSlot

open RegularExpression

/-- The calls of `mapTemp`. -/
inductive Site where
  | processTable | processEntry | processUndo | releasePage | loadSegment
  | setCOW | cowTable | cowEntry | copyOnWrite | pteDump
  deriving DecidableEq, Repr

inductive Act where
  /-- `getInterruptStatus` into a local, or the flags pushed by an interrupt gate -/
  | save
  | cli
  | sti
  /-- `setInterruptStatus` of the innermost saved status, or the flags popped by `iret` -/
  | restore
  /-- the innermost saved status goes out of scope -/
  | leave
  /-- `asm_switch_thread` -/
  | switch
  /-- `mapTemp` is called and comes to its `ASSERT` on the page-table entry of the slot -/
  | mapTemp (site : Site)
  /-- `mapTemp` is called and returns 0 before its `ASSERT` -/
  | mapTempNull (site : Site)
  /-- `mapTemp` stores the entry -/
  | setTemp (site : Site)
  /-- memory is read or written through the address `mapTemp` returned -/
  | access (site : Site)
  | unmapTemp (site : Site)
  | other
  deriving DecidableEq, Repr

def act (a : Act) : RegularExpression Act := char a

def quiet : RegularExpression Act := (act .other).star

/-- A function that saves the interrupt status and disables interrupts before its body. -/
def withStatus (body : RegularExpression Act) : RegularExpression Act :=
  act .save * act .cli * body * act .leave

/-- Work that keeps the slot and the processor, with status sections nested at most `n` deep. -/
def kernelWork : Nat → RegularExpression Act
  | 0 => quiet
  | n + 1 => (act .other + withStatus (kernelWork n * act .restore)).star

/-- `FileManager::open`, `read`, `fseek`, `close` and the `*_process_fs`: `open` runs `lookup`,
which runs `normalizePath`. -/
def fileWork : RegularExpression Act := kernelWork 3

def schedule : RegularExpression Act :=
  withStatus (quiet * (act .switch + 1) * act .restore)

/-- `mapTemp` returns an address, the slot is used, `unmapTemp`. -/
def window (site : Site) (body : RegularExpression Act) : RegularExpression Act :=
  act (.mapTemp site) * act (.setTemp site) * body * act (.unmapTemp site)

/-- `map_process_page` clears the entry again after a failed `attach`. -/
def undoProcessEntry : RegularExpression Act :=
  act (.mapTempNull .processUndo) + window .processUndo (act (.access .processUndo))

/-- `map_process_page` once the page table is there. -/
def mapProcessEntry : RegularExpression Act :=
  act (.mapTempNull .processEntry)
  -- the entry is in use
  + window .processEntry (act (.access .processEntry))
  + window .processEntry (act (.access .processEntry) * act (.access .processEntry) * quiet)
    * quiet * (1 + undoProcessEntry * quiet)

def mapProcessPage : RegularExpression Act :=
  quiet * (mapProcessEntry
    -- no page table: `allocatePageTable` fails, or its page is cleared through the slot
    + quiet * (1 + act (.mapTempNull .processTable)
      + window .processTable (act (.access .processTable)) * mapProcessEntry))

def releaseProcessPage : RegularExpression Act :=
  quiet * (1 + act (.mapTempNull .releasePage)
    + window .releasePage (act (.access .releasePage))
    + window .releasePage (act (.access .releasePage) * act (.access .releasePage)) * quiet)

def rollbackLoadedSegments : RegularExpression Act := (quiet * releaseProcessPage).star

def loadSegmentPage : RegularExpression Act :=
  quiet * (1 + fileWork * (1 + act (.mapTempNull .loadSegment)
    + window .loadSegment (act (.access .loadSegment))))

/-- `RMapManager::setCOW`: the slot shows one page-table entry of the chain after the other. -/
def setCOW : RegularExpression Act :=
  quiet * (window .setCOW (act (.access .setCOW) * quiet) * quiet).star

/-- `setupCOWPages` up to its own page-table entry: a new page table is cleared, and `setCOW`. -/
def setupCOWTable : RegularExpression Act :=
  quiet * (1 + quiet * window .cowTable (act (.access .cowTable))) * setCOW * quiet

def setupCOWPages : RegularExpression Act :=
  (setupCOWTable * window .cowEntry (act (.access .cowEntry) * quiet) * quiet).star * (1
    -- no page for the page table; `rollbackCOWSetup` does not use the slot
    + quiet
    + setupCOWTable * (act (.mapTempNull .cowEntry) + window .cowEntry 1) * quiet)

/-- The loop over the segments of an executable. -/
def loadSegments : RegularExpression Act :=
  (quiet * loadSegmentPage * mapProcessPage).star * (quiet
    + quiet * (1 + loadSegmentPage * (1 + mapProcessPage)) * quiet
      * rollbackLoadedSegments * quiet)

/-- An executable is loaded (`mode` 0), or a function of the kernel is shared (`mode` 1). -/
def createUserVirtualPool : RegularExpression Act :=
  quiet * (1 + quiet * loadSegments + quiet * setupCOWPages * quiet)

/-- Without a free PCB the interrupt status is not restored. -/
def executeThread : RegularExpression Act :=
  withStatus (quiet * (1 + quiet * act .restore + fileWork * quiet * act .restore))

def executeProcess : RegularExpression Act :=
  withStatus (fileWork * (act .restore
    + executeThread * (fileWork * act .restore
      + quiet * (quiet * fileWork * act .restore
        + createUserVirtualPool * quiet * fileWork * quiet * act .restore))))

def copyProcess : RegularExpression Act :=
  quiet * (quiet * setupCOWPages).star * (quiet + fileWork)

def fork : RegularExpression Act :=
  withStatus (quiet * (act .restore
    + executeThread * (act .restore
      + quiet * (act .restore
        + quiet * (act .restore
          + copyProcess * (act .restore + quiet * act .restore * quiet))))))

/-- `execve` up to the new page directory, then the paths on which it returns -1 or gives the
processor away for good. -/
def execveFails : RegularExpression Act :=
  withStatus (fileWork * (act .restore
    + quiet * (fileWork * act .restore
      + fileWork * quiet * (fileWork * act .restore
        + createUserVirtualPool * fileWork * quiet * act .restore * schedule * quiet))))

/-- `execve` succeeds: `asm_start_process` enters the new program, and the frame of the system
call is given up. -/
def execveStarts : RegularExpression Act :=
  withStatus (fileWork * quiet * fileWork * quiet * createUserVirtualPool * fileWork * quiet
      * act .restore)
    * act .sti * act .leave

def pteDump : RegularExpression Act :=
  quiet * (1 + act (.mapTempNull .pteDump)
    + window .pteDump (act (.access .pteDump) * quiet))

/-- A call that does not come to `mapTemp`, with any use of the interrupt flag and the
processor. -/
def otherCall : RegularExpression Act :=
  (act .save + act .cli + act .sti + act .restore + act .leave + act .switch
    + act .other).star

/-- `asm_system_call_handler` behind its interrupt gate, around what returns to it. -/
def systemCall (body : RegularExpression Act) : RegularExpression Act :=
  act .save * act .cli * act .sti * body * act .cli * act .restore * act .leave

/-- What a thread may enter: the system calls, the start of a new process, and the two functions
that kernel threads call. -/
inductive Call where
  | fork | execve | pteDump | otherSystemCall
  | loadProcess | executeProcess | executeThread | otherCall
  deriving DecidableEq, Repr

def Call.body : Call → RegularExpression Act
  | .fork => systemCall TempSlot.fork
  | .execve => systemCall execveFails + act .save * act .cli * act .sti * execveStarts
  | .pteDump => systemCall TempSlot.pteDump
  | .otherSystemCall => systemCall TempSlot.otherCall
  | .loadProcess => act .cli * quiet * act .sti
  | .executeProcess => TempSlot.executeProcess
  | .executeThread => TempSlot.executeThread
  | .otherCall => TempSlot.otherCall

/-- Code behind an interrupt gate, up to its `iret`. -/
def handler (body : RegularExpression Act) : RegularExpression Act :=
  withStatus (body * act .restore)

/-- The timer may run `schedule`; the keyboard and the disk never do. -/
def interrupt : RegularExpression Act := handler (quiet * (schedule + 1))

/-- A copy-on-write fault with one or with several references, or a demand-zero fault. -/
def handleUserPageFault : RegularExpression Act :=
  quiet * (1 + quiet * (act (.mapTempNull .copyOnWrite)
    + window .copyOnWrite (act (.access .copyOnWrite)) * quiet))

/-- A copy-on-write fault of the kernel is a `PANIC`; what is left is demand zero. -/
def handleKernelPageFault : RegularExpression Act := quiet

/-- What a thread has still to do in the kernel (nothing while it is in user mode), and the
interrupt statuses saved on its stack. -/
structure Thread where
  todo : List Act
  saved : List Bool
  deriving DecidableEq, Repr

structure Machine (τ : Type*) where
  threads : τ → Thread
  running : τ
  /-- the interrupt flag of the processor -/
  interrupts : Bool
  /-- who mapped the slot, `none` while its page-table entry is empty -/
  slot : Option (τ × Site)

namespace Machine

variable {τ : Type*} [DecidableEq τ]

def boot (t : τ) : Machine τ :=
  { threads := fun _ => ⟨[], []⟩, running := t, interrupts := true, slot := none }

def current (m : Machine τ) : Thread := m.threads m.running

def become (m : Machine τ) (thread : Thread) : Machine τ :=
  { m with threads := Function.update m.threads m.running thread }

def push (m : Machine τ) (w : List Act) : Machine τ :=
  m.become { m.current with todo := w ++ m.current.todo }

/-- The running thread performs `a`, with `rest` still to do; a switch goes to `u`.
`none` is a failed `ASSERT`. -/
def perform (m : Machine τ) (u : τ) (rest : List Act) : Act → Option (Machine τ)
  | .save => some (m.become ⟨rest, m.interrupts :: m.current.saved⟩)
  | .cli => some { m.become ⟨rest, m.current.saved⟩ with interrupts := false }
  | .sti => some { m.become ⟨rest, m.current.saved⟩ with interrupts := true }
  | .restore =>
      some { m.become ⟨rest, m.current.saved⟩ with interrupts := m.current.saved.headD true }
  | .leave => some (m.become ⟨rest, m.current.saved.tail⟩)
  -- `asm_switch_thread` ends in `sti`, on the stack of the next thread
  | .switch => some { m.become ⟨rest, m.current.saved⟩ with running := u, interrupts := true }
  | .mapTemp _ => if m.slot.isNone then some (m.become ⟨rest, m.current.saved⟩) else none
  | .mapTempNull _ => some (m.become ⟨rest, m.current.saved⟩)
  | .setTemp site =>
      some { m.become ⟨rest, m.current.saved⟩ with slot := some (m.running, site) }
  | .access _ => some (m.become ⟨rest, m.current.saved⟩)
  | .unmapTemp _ =>
      if m.slot.isSome then some { m.become ⟨rest, m.current.saved⟩ with slot := none } else none
  | .other => some (m.become ⟨rest, m.current.saved⟩)

inductive Step : Machine τ → Machine τ → Prop
  | call {m : Machine τ} (c : Call) {w : List Act} (user : m.current.todo = [])
      (hw : w ∈ c.body.matches') : Step m (m.push w)
  | userFault {m : Machine τ} {w : List Act} (user : m.current.todo = [])
      (hw : w ∈ (handler handleUserPageFault).matches') : Step m (m.push w)
  | kernelFault {m : Machine τ} {w : List Act}
      (hw : w ∈ (handler handleKernelPageFault).matches') : Step m (m.push w)
  | interrupt {m : Machine τ} {w : List Act} (enabled : m.interrupts = true)
      (hw : w ∈ TempSlot.interrupt.matches') : Step m (m.push w)
  | act {m m' : Machine τ} {a : Act} {rest : List Act} (u : τ) (h : m.current.todo = a :: rest)
      (hm : m.perform u rest a = some m') : Step m m'

/-- The states of the runs on which every step is taken from an allowed state. -/
inductive Reached (allowed : Machine τ → Prop) : Machine τ → Prop
  | boot (t : τ) : Reached allowed (boot t)
  | step {m m' : Machine τ} (h : Reached allowed m) (ha : allowed m) (hs : Step m m') :
      Reached allowed m'

/-- What the slot has to be for an action: empty for `mapTemp`, and mapped at the same call by
the same thread for who reads, writes or unmaps through it. -/
def Finds (m : Machine τ) : Act → Prop
  | .mapTemp _ => m.slot = none
  | .mapTempNull _ => m.slot = none
  | .setTemp _ => m.slot = none
  | .access site => m.slot = some (m.running, site)
  | .unmapTemp site => m.slot = some (m.running, site)
  | _ => True

instance (m : Machine τ) : ∀ a, Decidable (m.Finds a)
  | .mapTemp _ | .mapTempNull _ | .setTemp _ => inferInstanceAs (Decidable (m.slot = none))
  | .access site | .unmapTemp site =>
      inferInstanceAs (Decidable (m.slot = some (m.running, site)))
  | .save | .cli | .sti | .restore | .leave | .switch | .other => inferInstanceAs (Decidable True)

/-- The slot is as the next action of the running thread needs it. -/
def Exclusive (m : Machine τ) : Prop := ∀ a ∈ m.current.todo.head?, m.Finds a

instance (m : Machine τ) : Decidable m.Exclusive :=
  inferInstanceAs (Decidable (∀ a ∈ m.current.todo.head?, m.Finds a))

/-- `schedule` is about to take the processor from a thread that is in `syscall_pte_dump` between
its `mapTemp` and its `unmapTemp`. -/
def Preempted (m : Machine τ) : Prop :=
  m.current.todo.head? = some .switch ∧ m.slot = some (m.running, .pteDump)

end Machine

end SysuOs.TempSlot
