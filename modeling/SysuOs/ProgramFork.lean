import SysuOs.PagingFault
import SysuOs.PagingKernel
import SysuOs.ProgramReady

/-! `fork` with all it allocates: the program manager and the memory manager together. A `fork` that
fails leaves nothing behind exactly if it fails before `executeThread` has made the child. -/

namespace SysuOs.Programs

structure System where
  manager : ProgramManager
  kernel : Kernel

namespace System

open ProgramManager
open Kernel (oneEntry onePage freePool)

/-- `executeThread`, with the page for the arguments. -/
def executeThread (fuel : Nat) (s : System) (priority : Int) (needEnqueue : Bool) :
    Outcome (Option Nat × System) :=
  match s.manager.allocatePCB with
  | none => .ret (none, s)
  | some _ => do
      let (argv, kernel) ← s.kernel.allocatePages 1 VP_RW
      let (pid, manager) ← s.manager.executeThread fuel priority needEnqueue argv
      return (pid, { manager, kernel })

/-- `copyProcess`, the control block and the address space. -/
def copyProcess (s : System) (parent child : Nat) (userVirtual : UserVAddressPool) : Outcome (Bool × System) := do
  let dir := PA2PGI (getAddress (s.kernel.pte s.kernel.cr3 (s.manager.pcbSet child).pageDirectoryAddress))
  let (flag, kernel) ← s.kernel.copyProcess { pid := child, pageDirectory := dir, userVirtual }
  return (flag, { manager := s.manager.copyPCB parent child, kernel })

/-- `fork`. -/
def fork (fuel : Nat) (s : System) : Outcome (Option Nat × System) :=
  match s.manager.running, s.kernel.runningPCB with
  | some parent, some parentVirtual =>
      if (s.manager.pcbSet parent).pageDirectoryAddress = 0 then .ret (none, s)
      else do
        let (pid, s) ← s.executeThread fuel 0 true
        match pid with
        | none => return (none, s)
        | some process =>
            let (pageDirectory, kernel) ← s.kernel.createPageDirectory process
            let manager := s.manager.setPCB process { s.manager.pcbSet process with
              needFork := true, pageDirectoryAddress := pageDirectory }
            if pageDirectory = 0 then
              return (none, { manager := manager.setStatus process .DEAD, kernel })
            else do
              let (pages, kernel) ← kernel.cloneFrom parentVirtual.userVirtual process
              match pages with
              -- the stack pool of the child has the length 0: `ASSERT` fails
              | none => .halt
              | some pages => do
                  let userVirtual := parentVirtual.userVirtual.cloneFrom process
                  let (flag, s) ← copyProcess { manager, kernel } parent process userVirtual
                  if flag then return (some process, s)
                  else do
                    let kernel ← s.kernel.destroy pages process
                    return (none, { manager := s.manager.setStatus process .DEAD, kernel })
  | _, _ => .halt

/-- What a `fork` that has failed leaves as it was: the lists of programs, the slots, the page pools and
the reverse map. -/
structure NoTrace (s s' : System) : Prop where
  links : s'.manager.links = s.manager.links
  pcbSetStatus : s'.manager.pcbSetStatus = s.manager.pcbSetStatus
  resources : Kernel.SameResources s.kernel s'.kernel

/-- `fork` returns -1 and leaves no trace. -/
def FailsClean (fuel : Nat) (s : System) : Prop :=
  ∃ s', s.fork fuel = .ret (none, s') ∧ NoTrace s s'

/-- `fork` fails before there is a child: the parent is a kernel thread, there is no free slot, or there is
no page for the arguments. -/
def FailsEarly (s : System) : Prop :=
  (∃ parent, s.manager.running = some parent ∧ (s.manager.pcbSet parent).pageDirectoryAddress = 0) ∨
    s.manager.allocatePCB = none ∨ s.kernel.NoKernelPage

/-- The program manager and the memory manager both have a running program, and the kernel's own page tables are
in place. -/
structure Ready (s : System) : Prop where
  running : ∃ parent pcb, s.manager.running = some parent ∧ s.kernel.runningPCB = some pcb
  kernel : Kernel.KernelReady s.kernel

/-! ### Early failures -/

theorem executeThread_early (fuel : Nat) {s : System} {priority : Int} {needEnqueue : Bool} (h : Ready s)
    (hearly : s.manager.allocatePCB = none ∨ s.kernel.NoKernelPage) :
    ∃ s', s.executeThread fuel priority needEnqueue = .ret (none, s') ∧ NoTrace s s' := by
  rw [executeThread]
  cases hpcb : s.manager.allocatePCB with
  | none => exact ⟨s, rfl, ⟨rfl, rfl, Kernel.SameResources.refl _⟩⟩
  | some slot =>
      obtain ⟨thread, s₁⟩ := slot
      have hpage := hearly.resolve_left (by simp [hpcb])
      obtain ⟨kernel, hpages, hsame⟩ := Kernel.allocatePages_noPage h.kernel.start hpage VP_RW
      obtain ⟨hfree, hs₁⟩ := allocatePCB_some hpcb
      dsimp only
      rw [hpages, Outcome.ret_bind, ProgramManager.executeThread, hpcb]
      dsimp only
      rw [if_pos rfl, Outcome.ret_bind]
      refine ⟨_, rfl, ⟨?_, ?_, hsame⟩⟩
      · rw [hs₁]
        rfl
      · -- the slot is given back
        have hback : Function.update (Function.update s.manager.pcbSetStatus thread true) thread false =
            s.manager.pcbSetStatus := by
          rw [Function.update_idem, ← hfree, Function.update_eq_self]
        rw [hs₁]
        exact hback

theorem fork_early {fuel : Nat} {s : System} (h : Ready s) (hearly : FailsEarly s) : FailsClean fuel s := by
  obtain ⟨parent, pcb, hparent, hpcb⟩ := h.running
  rw [FailsClean, fork]
  simp only [hparent, hpcb]
  by_cases hdir : (s.manager.pcbSet parent).pageDirectoryAddress = 0
  · rw [if_pos hdir]
    exact ⟨s, rfl, ⟨rfl, rfl, Kernel.SameResources.refl _⟩⟩
  · rw [if_neg hdir]
    have hearly' := hearly.resolve_left fun ⟨q, hq, hqdir⟩ => by
      rw [hparent] at hq
      exact hdir (Option.some.inj hq ▸ hqdir)
    obtain ⟨s', hthread, hclean⟩ := executeThread_early fuel h hearly'
    rw [hthread]
    exact ⟨s', rfl, hclean⟩

/-! ### Late failures -/

theorem enqueue_links {m m' : ProgramManager} {fuel p : Nat} (h : m.enqueue fuel p = .ret m') :
    ∃ links, m' = { m with links } := by
  obtain ⟨links, -, h⟩ := Outcome.bind_eq_ret h
  exact ⟨links, (Outcome.ret.inj h).symm⟩

/-- With a slot and a page for its arguments `executeThread` makes a program. -/
theorem executeThread_slot {m m' m₁ : ProgramManager} {fuel argv thread : Nat} {priority : Int}
    {needEnqueue : Bool} {pid : Option Nat} (hslot : m.allocatePCB = some (thread, m₁)) (hargv : argv ≠ 0)
    (h : m.executeThread fuel priority needEnqueue argv = .ret (pid, m')) :
    pid = some thread ∧ m'.pcbSetStatus thread = true := by
  obtain ⟨-, rfl⟩ := allocatePCB_some hslot
  rw [ProgramManager.executeThread, hslot] at h
  dsimp only at h
  rw [if_neg hargv] at h
  obtain ⟨links, -, h⟩ := Outcome.bind_eq_ret h
  cases needEnqueue with
  | false =>
      obtain ⟨rfl, rfl⟩ := Prod.mk.inj (Outcome.ret.inj h)
      exact ⟨rfl, Function.update_self _ _ _⟩
  | true =>
      obtain ⟨m₂, henqueue, h⟩ := Outcome.bind_eq_ret h
      obtain ⟨rfl, rfl⟩ := Prod.mk.inj (Outcome.ret.inj h)
      obtain ⟨links', rfl⟩ := enqueue_links henqueue
      exact ⟨rfl, Function.update_self _ _ _⟩

theorem executeThread_late {fuel : Nat} {s s' : System} {priority : Int} {needEnqueue : Bool}
    {pid : Option Nat} (h : Ready s) (hlate : ¬(s.manager.allocatePCB = none ∨ s.kernel.NoKernelPage))
    (he : s.executeThread fuel priority needEnqueue = .ret (pid, s')) :
    ∃ p, pid = some p ∧ s.manager.pcbSetStatus p = false ∧ s'.manager.pcbSetStatus p = true := by
  rw [not_or] at hlate
  rw [executeThread] at he
  cases hpcb : s.manager.allocatePCB with
  | none => exact absurd hpcb hlate.1
  | some slot =>
      obtain ⟨thread, s₁⟩ := slot
      rw [hpcb] at he
      obtain ⟨⟨argv, kernel⟩, hpages, he⟩ := Outcome.bind_eq_ret he
      obtain ⟨⟨made, manager⟩, hthread, he⟩ := Outcome.bind_eq_ret he
      obtain ⟨rfl, rfl⟩ := Prod.mk.inj (Outcome.ret.inj he)
      have hargv := Kernel.allocatePages_page h.kernel hlate.2 hpages
      obtain ⟨hmade, hused⟩ := executeThread_slot hpcb hargv hthread
      exact ⟨thread, hmade, (allocatePCB_some hpcb).1, hused⟩

/-- A `fork` that has made its child and fails keeps the slot of the child. -/
theorem fork_late {fuel : Nat} {s s' : System} (h : Ready s) (hlate : ¬FailsEarly s)
    (hf : s.fork fuel = .ret (none, s')) : ¬NoTrace s s' := by
  obtain ⟨parent, pcb, hparent, hpcb⟩ := h.running
  rw [FailsEarly, not_or] at hlate
  have hdir : (s.manager.pcbSet parent).pageDirectoryAddress ≠ 0 := fun h0 => hlate.1 ⟨parent, hparent, h0⟩
  rw [fork] at hf
  simp only [hparent, hpcb] at hf
  rw [if_neg hdir] at hf
  obtain ⟨⟨pid, s₁⟩, hthread, hf⟩ := Outcome.bind_eq_ret hf
  obtain ⟨p, rfl, hfree, hused⟩ := executeThread_late h hlate.2 hthread
  -- whatever fails next, nothing writes `PCB_SET_STATUS`
  have hkept : s'.manager.pcbSetStatus p = true := by
    obtain ⟨⟨pageDirectory, kernel⟩, -, hf⟩ := Outcome.bind_eq_ret hf
    dsimp only at hf
    split at hf
    · obtain ⟨-, rfl⟩ := Prod.mk.inj (Outcome.ret.inj hf)
      exact hused
    · obtain ⟨⟨pages, kernel⟩, -, hf⟩ := Outcome.bind_eq_ret hf
      cases pages with
      | none => simp at hf
      | some pages =>
          obtain ⟨⟨flag, s₂⟩, hcopy, hf⟩ := Outcome.bind_eq_ret hf
          obtain ⟨⟨flag', kernel⟩, -, hcopy⟩ := Outcome.bind_eq_ret hcopy
          obtain ⟨rfl, rfl⟩ := Prod.mk.inj (Outcome.ret.inj hcopy)
          cases flag' with
          | true => simp at hf
          | false =>
              obtain ⟨kernel, -, hf⟩ := Outcome.bind_eq_ret hf
              obtain ⟨-, rfl⟩ := Prod.mk.inj (Outcome.ret.inj hf)
              exact hused
  intro htrace
  rw [htrace.pcbSetStatus, hfree] at hkept
  simp at hkept

/-- A `fork` returns -1 and leaves no trace if and only if it fails before there is a child. -/
theorem failsClean_iff {fuel : Nat} {s : System} (h : Ready s) : FailsClean fuel s ↔ FailsEarly s := by
  constructor
  · rintro ⟨s', hf, htrace⟩
    by_contra hlate
    exact fork_late h hlate hf htrace
  · exact fork_early h

/-! ### A machine short of memory -/

/-- `init` runs, and the kernel has four free virtual pages and `free` free physical ones. Its page table is
in frame 3. -/
def lowMemory (free : Nat) : System where
  manager := initRuns
  kernel :=
    { oneEntry 0x3205#32 with
      mem := fun frame idx => if frame = 1 ∧ idx = 768 then 0x3e07#32 else (oneEntry 0x3205#32).mem frame idx
      kernelPhysical := freePool 0x300000 free
      kernelVirtual :=
        { length := 4
          resources := { bitmap := fun _ => 0, length := 4 }
          startAddress := 0xC0100000
          endAddress := 0xC0103FFF
          privileges := fun _ => VP_CLEAR
          isStatic := false
          staticPrivilege := VP_CLEAR } }

theorem ready_lowMemory (free : Nat) (hframes : ∀ address,
    ((freePool 0x300000 free).allocate 1).1 = some address → address % 2 ^ 32 ≠ 0) : Ready (lowMemory free) := by
  have hstart : 0 < (lowMemory free).kernel.kernelVirtual.startAddress := Nat.succ_pos _
  refine ⟨⟨1, onePage, rfl, rfl⟩, ⟨hstart, fun i hi => ?_, hframes⟩⟩
  have hlt : i < 4 := hi
  have hidx : pdeIdx (i * 4096 + 0xC0100000) = 768 := by
    rw [pdeIdx]
    omega
  show hasFlag ((lowMemory free).kernel.mem 1 (pdeIdx (i * 4096 + 0xC0100000))) PDE_PRESENT = true
  rw [hidx]
  show hasFlag 0x3e07#32 PDE_PRESENT = true
  decide

theorem failsClean_noMemory : FailsClean 20 (lowMemory 0) :=
  (failsClean_iff (ready_lowMemory 0 fun address h => by
    have hnone : none = some address := h
    simp at hnone)).mpr (.inr (.inr (.inr rfl)))

/-- With one free page `fork` has a page for the arguments and none for the page directory. -/
theorem not_failsClean : ¬ ∀ fuel s, Ready s → (∀ child s', s.fork fuel ≠ .ret (some child, s')) →
    FailsClean fuel s := by
  intro h
  have hfork : (lowMemory 1).fork 20 = .ret (none, (((lowMemory 1).fork 20).getD (none, lowMemory 1)).2) := rfl
  have hready : Ready (lowMemory 1) := ready_lowMemory 1 fun address h => by
    have haddress : some 0x300000 = some address := h
    obtain rfl := Option.some.inj haddress
    decide
  obtain ⟨s', hs', htrace⟩ := h 20 (lowMemory 1) hready fun child s' hs' => by
    rw [hfork] at hs'
    simp at hs'
  refine fork_late hready ?_ hs' htrace
  rintro (⟨parent, hparent, hdir⟩ | hslot | hvirtual | hphysical)
  · obtain rfl := Option.some.inj hparent
    exact absurd hdir (by decide)
  · have hsome : (lowMemory 1).manager.allocatePCB.isSome = true := rfl
    rw [hslot] at hsome
    simp at hsome
  · exact absurd hvirtual (by decide)
  · exact absurd hphysical (by decide)

end System

end SysuOs.Programs
