import YunbaIot.Run

/-! One key of driver/key.c: its pin with the interrupt the pin is set to, the level the
handler believes in, and the two timers. The callbacks run one after the other in the timer
task, and the pin may change and its interrupt be taken within each: a callback stops behind
its look at the pin and before its call. The calls are kept by press: a press begins where the
handler finds key_level 1. -/
namespace YunbaIot.KeyPress
open Run

inductive Edge where
  | rising | falling
  deriving DecidableEq, Repr

inductive IntrType where
  | disable | posedge | negedge
  deriving DecidableEq, Repr

def IntrType.latches : IntrType → Edge → Bool
  | .posedge, .rising => true
  | .negedge, .falling => true
  | _, _ => false

inductive Event where
  -- key_5s_cb found the pin low
  | low5s
  | longPress
  | shortPress
  deriving DecidableEq, Repr

/- Where the callback of a timer stands. -/
inductive Stage where
  | idle
  -- key_5s_cb has found the pin low
  | lowFor5s
  -- key_50ms_cb has found the pin low, has found it high, is about to call short_press
  | stillLow | high | calling
  deriving DecidableEq, Repr

structure Key where
  -- installed functions
  longPress : Bool
  shortPress : Bool
  pin : Bool
  intr : IntrType
  -- the bit in the interrupt status, with the edge that set it
  pending : Option Edge
  keyLevel : Bool
  key5s : Bool
  key50ms : Bool
  stage : Stage
  -- the events of every press, the latest first
  presses : List (List Event)
  deriving DecidableEq, Repr

def Key.current (k : Key) : List Event := k.presses.headD []
def Key.note (e : Event) (k : Key) : Key := { k with presses := (e :: k.current) :: k.presses.tail }

def keyInit (longPress shortPress pin : Bool) : Key :=
  ⟨longPress,shortPress,pin,.negedge,none,true,false,false,.idle,[[]]⟩

/- The pin takes a level. -/
def edge (level : Bool) (k : Key) : Key :=
  if level = k.pin then k
  else
    let e := if level then Edge.rising else Edge.falling
    { k with pin := level, pending := if k.intr.latches e then some e else k.pending }

def keyIntrHandler (k : Key) : Key :=
  if k.pending.isNone then k
  else
    let k := { k with intr := .disable, pending := none }
    if k.keyLevel then
      { k with key5s := true, keyLevel := false, intr := .posedge, presses := [] :: k.presses }
    else { k with key50ms := true }

/- The callbacks up to their look at the pin. -/
def key5sCb (k : Key) : Key :=
  let k := { k with key5s := false }
  if k.pin then k else { k.note .low5s with stage := .lowFor5s }

def key50msCb (k : Key) : Key :=
  { k with key50ms := false, stage := if k.pin then .high else .stillLow }

/- What is left of a callback, up to the next place where an interrupt makes a difference. -/
def resume (k : Key) : Key :=
  match k.stage with
  | .idle => k
  | .lowFor5s => { if k.longPress then k.note .longPress else k with stage := .idle }
  | .stillLow => { k with intr := .posedge, stage := .idle }
  | .high => { k with key5s := false, keyLevel := true, intr := .negedge, stage := .calling }
  | .calling => { if k.shortPress then k.note .shortPress else k with stage := .idle }

inductive Step where
  | edge (level : Bool)
  | interrupt
  | timer5s
  | timer50ms
  | resume
  deriving DecidableEq, Repr

def step (k : Key) : Step → Key
  | .edge level => edge level k
  | .interrupt => keyIntrHandler k
  | .timer5s => if k.stage = .idle ∧ k.key5s = true then key5sCb k else k
  | .timer50ms => if k.stage = .idle ∧ k.key50ms = true then key50msCb k else k
  | .resume => KeyPress.resume k

/- At most one call, and no short press once the pin was low for 5 s. -/
structure OneEvent (press : List Event) : Prop where
  one : press.count .longPress + press.count .shortPress ≤ 1
  short : .shortPress ∈ press → .low5s ∉ press

/- The call of short_press comes in a press without one, in which key_5s_cb has not found the pin
low, and key_5s_cb does not find it low in a press behind such a call. -/
def Clean (k : Key) : Step → Prop
  | .resume => k.stage = .calling → k.shortPress = true → .low5s ∉ k.current ∧ .shortPress ∉ k.current
  | .timer5s => k.stage = .idle → k.key5s = true → k.pin = false → .shortPress ∉ k.current
  | _ => True

/-! What the handler and the timers agree on -/

structure Agreed (k : Key) : Prop where
  logged : k.presses ≠ []
  up : k.keyLevel = true → k.key5s = false ∧ k.key50ms = false ∧ k.intr = .negedge ∧ k.pending ≠ some .rising
  armed : k.key5s = true → .low5s ∉ k.current
  held : .longPress ∈ k.current → .low5s ∈ k.current
  checking : k.key50ms = true ∨ k.stage = .high ∨ k.stage = .stillLow → k.intr = .disable ∧ k.pending = none
  begun : k.stage = .high ∨ k.stage = .stillLow → k.key50ms = false
  low : k.stage = .lowFor5s → k.keyLevel = false ∧ k.key5s = false ∧ .low5s ∈ k.current ∧ .longPress ∉ k.current

theorem initAgreed (longPress shortPress pin : Bool) : Agreed (keyInit longPress shortPress pin) :=
  ⟨List.cons_ne_nil _ _,fun _ => ⟨rfl,rfl,rfl,nofun⟩,nofun,nofun,fun checking => by simp [keyInit] at checking,
    fun _ => rfl,nofun⟩

/- With its interrupt disabled the pin is not believed to be up. -/
theorem disabledLow {k : Key} (agreed : Agreed k) (disabled : k.intr = .disable) : k.keyLevel = false := by
  refine Bool.eq_false_iff.mpr fun up => ?_
  rw [(agreed.up up).2.2.1] at disabled
  cases disabled

theorem armedLow {k : Key} (agreed : Agreed k) (armed : k.key5s = true) : k.keyLevel = false := by
  refine Bool.eq_false_iff.mpr fun up => ?_
  rw [(agreed.up up).1] at armed
  cases armed

theorem edgeAgreed {k : Key} (agreed : Agreed k) (level : Bool) : Agreed (edge level k) := by
  unfold edge
  split
  · exact agreed
  · refine ⟨agreed.logged,fun up => ?_,agreed.armed,agreed.held,fun checking => ?_,agreed.begun,agreed.low⟩
    · obtain ⟨timer5s,timer50ms,negedge,falling⟩ := agreed.up up
      refine ⟨timer5s,timer50ms,negedge,?_⟩
      dsimp only
      rw [negedge]
      cases level with
      | false => exact nofun
      | true => exact falling
    · obtain ⟨disabled,none⟩ := agreed.checking checking
      refine ⟨disabled,?_⟩
      dsimp only
      rw [disabled]
      exact none

theorem handlerAgreed {k : Key} (agreed : Agreed k) : Agreed (keyIntrHandler k) := by
  unfold keyIntrHandler
  split
  · exact agreed
  · rename_i taken
    have apart : ¬(k.key50ms = true ∨ k.stage = .high ∨ k.stage = .stillLow) := fun checking => by
      rw [(agreed.checking checking).2] at taken
      exact taken rfl
    dsimp only
    split
    · rename_i up
      refine ⟨List.cons_ne_nil _ _,nofun,fun _ => List.not_mem_nil,nofun,fun checking => absurd checking apart,agreed.begun,
        fun low => ?_⟩
      have down := (agreed.low low).1
      rw [up] at down
      cases down
    · rename_i down
      exact ⟨agreed.logged,fun up => absurd up down,agreed.armed,agreed.held,fun _ => ⟨rfl,rfl⟩,
        fun begun => absurd (.inr begun) apart,agreed.low⟩

theorem timer5sAgreed {k : Key} (agreed : Agreed k) (idle : k.stage = .idle) (armed : k.key5s = true) :
    Agreed (key5sCb k) := by
  have down := armedLow agreed armed
  have before := agreed.armed armed
  unfold key5sCb
  dsimp only
  split
  · exact ⟨agreed.logged,fun up => absurd up (by simp [down]),nofun,agreed.held,agreed.checking,agreed.begun,
      fun low => by simp [idle] at low⟩
  · refine ⟨List.cons_ne_nil _ _,fun up => absurd up (by simp [down, Key.note]),nofun,fun _ => List.mem_cons_self,
      fun checking => agreed.checking (checking.imp_right fun busy => ?_),fun busy => ?_,
      fun _ => ⟨down,rfl,List.mem_cons_self,fun inside => ?_⟩⟩
    · rcases busy with high | low
      · cases high
      · cases low
    · rcases busy with high | low
      · cases high
      · cases low
    · exact before (agreed.held ((List.mem_cons.mp inside).resolve_left (by decide)))

theorem timer50msAgreed {k : Key} (agreed : Agreed k) (armed : k.key50ms = true) : Agreed (key50msCb k) := by
  have disabled := agreed.checking (.inl armed)
  have down := disabledLow agreed disabled.1
  refine ⟨agreed.logged,fun up => absurd up (by simp [key50msCb, down]),agreed.armed,agreed.held,fun _ => disabled,
    fun _ => rfl,fun low => ?_⟩
  unfold key50msCb at low
  dsimp only at low
  split at low <;> cases low

/- A stage that has nothing to do with the 50 ms check. -/
theorem restChecking {k : Key} (k' : Key) (agreed : Agreed k) (stage : k'.stage = .idle) (timer : k'.key50ms = k.key50ms)
    (intr : k'.intr = k.intr) (pending : k'.pending = k.pending) :
    (k'.key50ms = true ∨ k'.stage = .high ∨ k'.stage = .stillLow → k'.intr = .disable ∧ k'.pending = none) ∧
      (k'.stage = .high ∨ k'.stage = .stillLow → k'.key50ms = false) := by
  rw [stage, timer, intr, pending]
  exact ⟨fun checking => agreed.checking (.inl (checking.resolve_right (by decide))),fun busy => absurd busy (by decide)⟩

theorem resumeAgreed {k : Key} (agreed : Agreed k) : Agreed (resume k) := by
  unfold resume
  cases stage : k.stage with
  | idle => exact agreed
  | lowFor5s =>
    obtain ⟨down,off,low,_⟩ := agreed.low stage
    dsimp only
    split
    · obtain ⟨checking,begun⟩ := restChecking { k.note .longPress with stage := .idle } agreed rfl rfl rfl rfl
      exact ⟨List.cons_ne_nil _ _,fun up => absurd up (by simp [Key.note, down]),
        fun armed => absurd armed (by simp [Key.note, off]),fun _ => List.mem_cons_of_mem _ low,checking,begun,nofun⟩
    · obtain ⟨checking,begun⟩ := restChecking { k with stage := .idle } agreed rfl rfl rfl rfl
      exact ⟨agreed.logged,agreed.up,agreed.armed,agreed.held,checking,begun,nofun⟩
  | stillLow =>
    have disabled := agreed.checking (.inr (.inr stage))
    have down := disabledLow agreed disabled.1
    have off := agreed.begun (.inr stage)
    exact ⟨agreed.logged,fun up => absurd up (by simp [down]),agreed.armed,agreed.held,fun checking => by simp [off] at checking,
      fun _ => off,nofun⟩
  | high =>
    have none := (agreed.checking (.inr (.inl stage))).2
    have off := agreed.begun (.inl stage)
    exact ⟨agreed.logged,fun _ => ⟨rfl,off,rfl,by simp [none]⟩,nofun,agreed.held,fun checking => by simp [off] at checking,
      fun _ => off,nofun⟩
  | calling =>
    dsimp only
    split
    · obtain ⟨checking,begun⟩ := restChecking { k.note .shortPress with stage := .idle } agreed rfl rfl rfl rfl
      refine ⟨List.cons_ne_nil _ _,agreed.up,fun armed inside => ?_,fun inside => ?_,checking,begun,nofun⟩
      · exact agreed.armed armed ((List.mem_cons.mp inside).resolve_left (by decide))
      · exact List.mem_cons_of_mem _ (agreed.held ((List.mem_cons.mp inside).resolve_left (by decide)))
    · obtain ⟨checking,begun⟩ := restChecking { k with stage := .idle } agreed rfl rfl rfl rfl
      exact ⟨agreed.logged,agreed.up,agreed.armed,agreed.held,checking,begun,nofun⟩

theorem stepAgreed {k : Key} (s : Step) (agreed : Agreed k) : Agreed (step k s) := by
  cases s with
  | edge level => exact edgeAgreed agreed level
  | interrupt => exact handlerAgreed agreed
  | timer5s =>
    rw [step]
    split
    · rename_i runs
      exact timer5sAgreed agreed runs.1 runs.2
    · exact agreed
  | timer50ms =>
    rw [step]
    split
    · rename_i runs
      exact timer50msAgreed agreed runs.2
    · exact agreed
  | resume => exact resumeAgreed agreed

/-- The handler begins a press on falling edges only. -/
theorem pressFalls {k : Key} (agreed : Agreed k) (up : k.keyLevel = true) (taken : k.pending.isSome = true) :
    k.pending = some .falling := by
  obtain ⟨e,same⟩ := Option.isSome_iff_exists.mp taken
  cases e with
  | falling => exact same
  | rising => exact absurd same (agreed.up up).2.2.2

/-! The events of a press -/

def AllOne (k : Key) : Prop := ∀ press ∈ k.presses, OneEvent press

theorem allOneCons {k : Key} (logged : k.presses ≠ []) :
    AllOne k ↔ OneEvent k.current ∧ ∀ press ∈ k.presses.tail, OneEvent press := by
  unfold AllOne Key.current
  cases same : k.presses with
  | nil => exact absurd same logged
  | cons w ws => simp

/- An event of the current press counts against what the press has. -/
theorem noteOne {k : Key} (logged : k.presses ≠ []) {e : Event} {fits : Prop}
    (one : OneEvent (e :: k.current) ↔ OneEvent k.current ∧ fits) : AllOne (k.note e) ↔ AllOne k ∧ fits := by
  have noted : AllOne (k.note e) ↔ OneEvent (e :: k.current) ∧ ∀ press ∈ k.presses.tail, OneEvent press := by
    show (∀ press ∈ (e :: k.current) :: k.presses.tail, OneEvent press) ↔ _
    rw [List.forall_mem_cons]
  rw [noted, allOneCons logged, one]
  exact and_right_comm

theorem noneOne : OneEvent [] := ⟨by decide,by decide⟩

theorem low5sOne (press : List Event) : OneEvent (.low5s :: press) ↔ OneEvent press ∧ .shortPress ∉ press := by
  constructor
  · intro one
    have absent : .shortPress ∉ press := fun inside =>
      one.short (List.mem_cons_of_mem _ inside) List.mem_cons_self
    exact ⟨⟨one.one,fun inside => absurd inside absent⟩,absent⟩
  · intro ⟨one,absent⟩
    refine ⟨one.one,fun inside => ?_⟩
    exact absurd ((List.mem_cons.mp inside).resolve_left (by decide)) absent

/- The call of long_press is the first of a press that key_5s_cb has found low. -/
theorem longOne {press : List Event} (low : .low5s ∈ press) (first : .longPress ∉ press) :
    OneEvent (.longPress :: press) ↔ OneEvent press ∧ True := by
  have none : press.count .longPress = 0 := List.count_eq_zero.mpr first
  constructor
  · intro one
    have count := one.one
    rw [List.count_cons_self, List.count_cons_of_ne (by decide)] at count
    exact ⟨⟨by omega,fun inside => absurd (List.mem_cons_of_mem _ low) (one.short (List.mem_cons_of_mem _ inside))⟩,trivial⟩
  · intro ⟨one,_⟩
    have absent : .shortPress ∉ press := fun inside => one.short inside low
    have calls : (Event.longPress :: press).count .longPress = 1 := by simp [none]
    have shorts : (Event.longPress :: press).count .shortPress = 0 := by simp [List.count_eq_zero.mpr absent]
    exact ⟨by omega,fun inside => absurd ((List.mem_cons.mp inside).resolve_left (by decide)) absent⟩

/- A short press is one too many behind any call and behind 5 s of a low pin. -/
theorem shortOne {press : List Event} (held : .longPress ∈ press → .low5s ∈ press) :
    OneEvent (.shortPress :: press) ↔ OneEvent press ∧ .low5s ∉ press ∧ .shortPress ∉ press := by
  constructor
  · intro one
    have early : .low5s ∉ press := fun inside => one.short List.mem_cons_self (List.mem_cons_of_mem _ inside)
    have count := one.one
    rw [List.count_cons_self, List.count_cons_of_ne (by decide)] at count
    have absent : .shortPress ∉ press := List.count_eq_zero.mp (by omega)
    exact ⟨⟨by omega,fun inside => absurd inside absent⟩,early,absent⟩
  · intro ⟨_,early,absent⟩
    have free : .longPress ∉ press := fun inside => early (held inside)
    have calls : (Event.shortPress :: press).count .longPress = 0 := by simp [List.count_eq_zero.mpr free]
    have shorts : (Event.shortPress :: press).count .shortPress = 1 := by simp [List.count_eq_zero.mpr absent]
    exact ⟨by omega,fun _ inside => early ((List.mem_cons.mp inside).resolve_left (by decide))⟩

theorem timer5sOne {k : Key} (agreed : Agreed k) (idle : k.stage = .idle) (armed : k.key5s = true) :
    AllOne (key5sCb k) ↔ AllOne k ∧ Clean k .timer5s := by
  unfold key5sCb
  dsimp only
  cases low : k.pin with
  | true => exact (and_iff_left fun _ _ up => by rw [low] at up; cases up).symm
  | false =>
    have clean : Clean k .timer5s ↔ .shortPress ∉ k.current := ⟨fun clean => clean idle armed low,fun absent _ _ _ => absent⟩
    rw [clean]
    exact noteOne agreed.logged (low5sOne k.current)

theorem resumeOne {k : Key} (agreed : Agreed k) : AllOne (resume k) ↔ AllOne k ∧ Clean k .resume := by
  have rest (other : k.stage ≠ .calling) : Clean k .resume := fun calling => absurd calling other
  unfold resume
  cases stage : k.stage with
  | idle => exact (and_iff_left (rest (by simp [stage]))).symm
  | lowFor5s =>
    rw [and_iff_left (rest (by simp [stage]))]
    dsimp only
    split
    · obtain ⟨_,_,low,first⟩ := agreed.low stage
      exact (noteOne agreed.logged (longOne low first)).trans (and_iff_left trivial)
    · exact Iff.rfl
  | stillLow => exact (and_iff_left (rest (by simp [stage]))).symm
  | high => exact (and_iff_left (rest (by simp [stage]))).symm
  | calling =>
    dsimp only
    split
    · rename_i installed
      have clean : Clean k .resume ↔ .low5s ∉ k.current ∧ .shortPress ∉ k.current :=
        ⟨fun clean => clean stage installed,fun absent _ _ => absent⟩
      rw [clean]
      exact noteOne agreed.logged (shortOne agreed.held)
    · rename_i missing
      exact (and_iff_left fun _ installed => absurd installed missing).symm

theorem stepOne {k : Key} (agreed : Agreed k) (s : Step) : AllOne (step k s) ↔ AllOne k ∧ Clean k s := by
  cases s with
  | edge level =>
    have same : AllOne (edge level k) ↔ AllOne k := by
      unfold edge
      split <;> exact Iff.rfl
    exact same.trans (and_iff_left trivial).symm
  | interrupt =>
    refine Iff.trans ?_ (and_iff_left trivial).symm
    show AllOne (keyIntrHandler k) ↔ AllOne k
    unfold keyIntrHandler
    split
    · exact Iff.rfl
    · dsimp only
      split
      · show (∀ press ∈ [] :: k.presses, OneEvent press) ↔ _
        rw [List.forall_mem_cons]
        exact and_iff_right noneOne
      · exact Iff.rfl
  | timer5s =>
    rw [step]
    split
    · rename_i runs
      exact timer5sOne agreed runs.1 runs.2
    · rename_i waits
      exact (and_iff_left fun idle armed => absurd ⟨idle,armed⟩ waits).symm
  | timer50ms =>
    refine Iff.trans ?_ (and_iff_left trivial).symm
    rw [step]
    split <;> exact Iff.rfl
  | resume => exact resumeOne agreed

/- key_50ms_cb does not find the pin up in a press that key_5s_cb found low, and no press begins
while it still has short_press to call. -/
def InOrder (k : Key) : Step → Prop
  | .timer50ms => k.stage = .idle → k.key50ms = true → k.pin = true → .low5s ∉ k.current
  | .interrupt => k.stage = .calling → k.pending = none
  | _ => True

structure Ordered (k : Key) : Prop where
  agreed : Agreed k
  short : .shortPress ∈ k.current → k.keyLevel = true
  early : k.stage = .high ∨ k.stage = .calling → .low5s ∉ k.current
  calling : k.stage = .calling → .shortPress ∉ k.current ∧ k.keyLevel = true

theorem orderedClean {k : Key} (ordered : Ordered k) (s : Step) : Clean k s := by
  cases s with
  | resume => exact fun calling _ => ⟨ordered.early (.inr calling),(ordered.calling calling).1⟩
  | timer5s =>
    intro _ armed _ inside
    have up := ordered.short inside
    rw [armedLow ordered.agreed armed] at up
    cases up
  | edge | interrupt | timer50ms => trivial

theorem resumeOrdered {k : Key} (ordered : Ordered k) : Ordered (resume k) := by
  have agreed := resumeAgreed ordered.agreed
  refine ⟨agreed,?_,?_,?_⟩
  · unfold resume
    cases stage : k.stage with
    | idle => exact ordered.short
    | lowFor5s =>
      dsimp only
      split
      · exact fun inside => ordered.short ((List.mem_cons.mp inside).resolve_left (by decide))
      · exact ordered.short
    | stillLow => exact ordered.short
    | high => exact fun _ => rfl
    | calling =>
      dsimp only
      split
      · exact fun _ => (ordered.calling stage).2
      · exact ordered.short
  · unfold resume
    cases stage : k.stage with
    | idle => exact fun busy => absurd busy (by simp [stage])
    | high => exact fun _ => ordered.early (.inl stage)
    | lowFor5s | stillLow | calling => exact fun busy => absurd busy (by simp)
  · unfold resume
    cases stage : k.stage with
    | idle => exact fun busy => absurd busy (by simp [stage])
    | high =>
      refine fun _ => ⟨fun inside => ?_,rfl⟩
      have up := ordered.short inside
      rw [disabledLow ordered.agreed (ordered.agreed.checking (.inr (.inl stage))).1] at up
      cases up
    | lowFor5s | stillLow | calling => exact fun busy => absurd busy (by simp)

theorem stepOrdered {k : Key} (s : Step) (ordered : Ordered k) (fine : InOrder k s) : Ordered (step k s) := by
  have agreed := stepAgreed s ordered.agreed
  cases s with
  | edge level =>
    rw [step, edge] at agreed ⊢
    split
    · exact ordered
    · rename_i moved
      rw [if_neg moved] at agreed
      exact ⟨agreed,ordered.short,ordered.early,ordered.calling⟩
  | interrupt =>
    rw [step, keyIntrHandler] at agreed ⊢
    split
    · exact ordered
    · rename_i taken
      rw [if_neg taken] at agreed
      dsimp only at agreed ⊢
      have apart : k.stage ≠ .calling := fun calling => taken (by rw [fine calling]; rfl)
      split
      · rename_i up
        rw [if_pos up] at agreed
        exact ⟨agreed,fun inside => absurd inside List.not_mem_nil,fun _ => List.not_mem_nil,fun calling => absurd calling apart⟩
      · rename_i down
        rw [if_neg down] at agreed
        exact ⟨agreed,ordered.short,ordered.early,fun calling => absurd calling apart⟩
  | timer5s =>
    rw [step] at agreed ⊢
    split
    · rename_i runs
      rw [if_pos runs] at agreed
      have idle (stage : Stage) (other : stage ≠ .idle) : k.stage ≠ stage := fun same => other (same.symm.trans runs.1)
      refine ⟨agreed,?_,?_,?_⟩ <;> unfold key5sCb <;> dsimp only <;> split
      · exact ordered.short
      · exact fun inside => ordered.short ((List.mem_cons.mp inside).resolve_left (by decide))
      · exact fun busy => absurd busy (by simp [runs.1])
      · exact fun busy => absurd busy (by simp)
      · exact fun busy => absurd busy (by simp [runs.1])
      · exact fun busy => absurd busy (by simp)
    · exact ordered
  | timer50ms =>
    rw [step] at agreed ⊢
    split
    · rename_i runs
      rw [if_pos runs] at agreed
      refine ⟨agreed,ordered.short,?_,?_⟩
      · intro busy
        have up : k.pin = true := by
          by_contra low
          simp [key50msCb, low] at busy
        exact fine runs.1 runs.2 up
      · intro busy
        unfold key50msCb at busy
        dsimp only at busy
        split at busy <;> cases busy
    · exact ordered
  | resume => exact resumeOrdered ordered

/-- One event a press where every press is up in time and none begins within the callback that
ends the press before. -/
theorem inOrderOne (longPress shortPress pin : Bool) (steps : List Step)
    (inOrder : Along step InOrder (keyInit longPress shortPress pin) steps) :
    ∀ press ∈ (run step (keyInit longPress shortPress pin) steps).presses, OneEvent press := by
  have start : Ordered (keyInit longPress shortPress pin) :=
    ⟨initAgreed longPress shortPress pin,fun inside => absurd inside List.not_mem_nil,fun _ => List.not_mem_nil,nofun⟩
  have one : AllOne (keyInit longPress shortPress pin) := fun press inside => by
    rw [List.mem_singleton.mp inside]
    exact noneOne
  have kept (k : Key) (s : Step) (before : Ordered k ∧ AllOne k) (fine : InOrder k s) :
      Ordered (step k s) ∧ AllOne (step k s) :=
    ⟨stepOrdered s before.1 fine,(stepOne before.1.agreed s).mpr ⟨before.2,orderedClean before.1 s⟩⟩
  exact (Run.alongInvariant kept ⟨start,one⟩ inOrder).2

end YunbaIot.KeyPress
