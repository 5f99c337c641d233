import YunbaIot.EspSpiffs
import YunbaIot.Run

/-! The buffers of the file system over every sequence of mounts and unmounts: the pointers
outlive the blocks they name, which the next call is told by. -/
namespace YunbaIot.MountCycle
open EspSpiffs

inductive Call where
  | init (o : Outcome)
  | deinit (format : Bool)

def step (m : Mount) : Call → Mount
  | .init o => (espSpiffsInit o m).2
  | .deinit _ => espSpiffsDeinit m

def boot : Mount := ⟨none,none,none,[],0,false,false⟩

/-! What is to hold at the calls' boundaries -/

def Names (p : Option Nat) (m : Mount) : Prop := p = none ∨ ∃ block ∈ m.allocated, p = some block

structure Tidy (m : Mount) : Prop where
  work : Names m.workBuf m
  fd : Names m.fdBuf m
  cache : Names m.cacheBuf m
  once : m.releasedTwice = false

/- A call that is refused because the file system is mounted has not failed to mount it. -/
def FailedInit (m : Mount) : Call → Prop
  | .init o => m.mounted = false ∧ (espSpiffsInit o m).1 = -1
  | .deinit _ => False

structure Boundary (m : Mount) (call : Call) : Prop where
  tidy : Tidy (step m call)
  dropped : FailedInit m call → (step m call).allocated = []

/- A mount that gets its first buffer gets the others and succeeds, and nothing is unmounted. -/
def Harmless (m : Mount) : Call → Prop
  | .init o => m.mounted = true ∨ o.work = false ∨ o.fd = true ∧ o.cache = true ∧ o.mount = true
  | .deinit _ => m.mounted = false

/-! The two states such calls lead to -/

def idle (n : Nat) : Mount := ⟨none,none,none,[],n,false,false⟩
def ready (n : Nat) : Mount := ⟨some n,some (n + 1),some (n + 2),[n + 2,n + 1,n],n + 3,false,true⟩

def Settled (m : Mount) : Prop := ∃ n, m = idle n ∨ m = ready n

theorem idleTidy (n : Nat) : Tidy (idle n) := ⟨Or.inl rfl,Or.inl rfl,Or.inl rfl,rfl⟩

theorem readyTidy (n : Nat) : Tidy (ready n) := by
  constructor <;> simp [Names,ready]

/- A pointer to a block while none is allocated. -/
theorem staleUntidy {m : Mount} {block : Nat} (stale : m.workBuf = some block) (none : m.allocated = []) : ¬ Tidy m := by
  intro tidy
  have names := tidy.work
  rw [Names, stale, none] at names
  simp at names

theorem initStarved (n : Nat) (o : Outcome) (starved : o.work = false) : step (idle n) (.init o) = idle n := by
  simp [step,espSpiffsInit,idle,renewWork,malloc,starved]

theorem initMounts (n : Nat) {o : Outcome} (work : o.work = true) (fd : o.fd = true) (cache : o.cache = true)
    (mount : o.mount = true) : espSpiffsInit o (idle n) = (0, ready n) := by
  simp [espSpiffsInit,idle,ready,renewWork,renewFd,renewCache,malloc,spiffsMount,work,fd,cache,mount]

/- After a failure behind the first allocation every block is released, and named still. -/
theorem initFails (n : Nat) (o : Outcome) (work : o.work = true) (fails : ¬ (o.fd = true ∧ o.cache = true ∧ o.mount = true)) :
    (step (idle n) (.init o)).workBuf = some n ∧ (step (idle n) (.init o)).allocated = [] := by
  obtain ⟨work',fd,cache,mount⟩ := o
  subst work
  cases fd <;> cases cache <;> cases mount <;>
    simp [step,espSpiffsInit,idle,renewWork,renewFd,renewCache,malloc,spiffsMount,free,Nat.add_assoc] at fails ⊢

theorem deinitStale (n : Nat) (format : Bool) :
    (step (ready n) (.deinit format)).workBuf = some n ∧ (step (ready n) (.deinit format)).allocated = [] := by
  simp [step,espSpiffsDeinit,ready,free]

theorem initRefused (n : Nat) (o : Outcome) : step (ready n) (.init o) = ready n := rfl

theorem deinitIdle (n : Nat) (format : Bool) : step (idle n) (.deinit format) = idle n := rfl

/- Every call from a settled state, by whether it is harmless. -/
theorem idleInit (n : Nat) (o : Outcome) : Boundary (idle n) (.init o) ↔ Harmless (idle n) (.init o) := by
  by_cases starved : o.work = false
  · have same := initStarved n o starved
    have tidy : Tidy (step (idle n) (.init o)) := by
      rw [same]
      exact idleTidy n
    have dropped : (step (idle n) (.init o)).allocated = [] := congrArg Mount.allocated same
    exact iff_of_true ⟨tidy,fun _ => dropped⟩ (Or.inr (Or.inl starved))
  · have work : o.work = true := by simpa using starved
    by_cases all : o.fd = true ∧ o.cache = true ∧ o.mount = true
    · obtain ⟨fd,cache,mount⟩ := all
      have mounted := initMounts n work fd cache mount
      have after : step (idle n) (.init o) = ready n := congrArg Prod.snd mounted
      refine iff_of_true ⟨after ▸ readyTidy n,fun failed => ?_⟩ (Or.inr (Or.inr ⟨fd,cache,mount⟩))
      have answer := failed.2
      rw [mounted] at answer
      cases answer
    · obtain ⟨stale,none⟩ := initFails n o work all
      refine iff_of_false (fun boundary => staleUntidy stale none boundary.tidy) (fun harmless => ?_)
      rcases harmless with mounted | starving | succeeds
      · cases mounted
      · exact starved starving
      · exact all succeeds

theorem boundaryHarmless {m : Mount} (settled : Settled m) (call : Call) : Boundary m call ↔ Harmless m call := by
  obtain ⟨n,rfl | rfl⟩ := settled
  · cases call with
    | init o => exact idleInit n o
    | deinit format => exact iff_of_true ⟨idleTidy n,False.elim⟩ rfl
  · cases call with
    | init o =>
      refine iff_of_true ⟨readyTidy n,fun failed => ?_⟩ (Or.inl rfl)
      cases failed.1
    | deinit format =>
      obtain ⟨stale,none⟩ := deinitStale n format
      refine iff_of_false (fun boundary => staleUntidy stale none boundary.tidy) (fun harmless => ?_)
      cases harmless

theorem harmlessSettled {m : Mount} (settled : Settled m) (call : Call) (harmless : Harmless m call) :
    Settled (step m call) := by
  obtain ⟨n,rfl | rfl⟩ := settled
  · cases call with
    | init o =>
      by_cases starved : o.work = false
      · exact ⟨n,Or.inl (initStarved n o starved)⟩
      · have work : o.work = true := by simpa using starved
        obtain ⟨fd,cache,mount⟩ := (harmless.resolve_left Bool.false_ne_true).resolve_left starved
        exact ⟨n,Or.inr (congrArg Prod.snd (initMounts n work fd cache mount))⟩
    | deinit format => exact ⟨n,Or.inl (deinitIdle n format)⟩
  · cases call with
    | init o => exact ⟨n,Or.inr (initRefused n o)⟩
    | deinit format => cases harmless

/-- From the start on, every boundary of a run of mounts and unmounts finds the pointers in order
and a failed mount without blocks exactly if every call is harmless where it comes. -/
theorem mountExact (calls : List Call) : Run.Along step Boundary boot calls ↔ Run.Along step Harmless boot calls :=
  @Run.alongExact _ _ step Settled Boundary Harmless (fun _ call settled => boundaryHarmless settled call)
    (fun _ call settled harmless => harmlessSettled settled call harmless) boot ⟨0,Or.inl rfl⟩ calls

/- The second buffer is refused once, and the next mount releases the first one again. -/
theorem secondRefused : ¬ (∀ calls, Run.Along step Boundary boot calls) ∧
    (Run.run step boot [.init ⟨true,false,true,true⟩,.init ⟨true,true,true,true⟩]).releasedTwice = true := by
  refine ⟨fun every => ?_,rfl⟩
  have along := every [.init ⟨true,false,true,true⟩]
  have harmless := (idleInit 0 ⟨true,false,true,true⟩).mp along.1
  simp [Harmless,idle] at harmless

end YunbaIot.MountCycle
