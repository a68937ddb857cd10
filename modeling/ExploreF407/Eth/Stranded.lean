import ExploreF407.Eth.Conserved

/-! # Frames left in the ring

The task goes back to sleep when `low_level_input` returns NULL. NULL stands for an
empty ring, and then a later frame brings its own interrupt; but it also stands for
a frame dropped for want of a pbuf, whatever waits behind that frame.
-/

namespace ExploreF407.Eth

open Kernel Machine Ring Framing

variable {nb : Nat} [NeZero nb]

/-- The task will call `low_level_input` again before it sleeps. -/
def Pc.draining : Pc nb → Bool
  | .input | .scan _ | .alloc => true
  | .release _ _ p | .returned p => p
  | .pend | .blocked | .fault => false

/-- Everything but the transmit side, which has its own uses of the HAL lock. -/
def Act.OfReceivePath : Act → Prop
  | .halLock _ => False
  | _ => True

instance (a : Act) : Decidable a.OfReceivePath :=
  match a with
  | .halLock _ => .isFalse not_false
  | .fill .. | .irqPost | .irqClear | .task _ => .isTrue trivial

namespace World

/-- A complete frame is in the CPU's hands and has not been read: from `RxDesc` on
    its descriptors are no longer the DMA's, and the last one ends a frame. -/
def HoldsFrame (s : World nb) : Prop :=
  ∃ d, s.heth.rxFrameInfos.segCount - s.released + d < nb ∧
    (∀ e, e ≤ d → (s.desc (after s.heth.rxDesc e)).own = false) ∧
      (s.desc (after s.heth.rxDesc d)).ls = true

instance (s : World nb) : Decidable s.HoldsFrame :=
  decidable_of_iff (∃ d, d < nb ∧ (s.heth.rxFrameInfos.segCount - s.released + d < nb ∧
    (∀ e, e ≤ d → (s.desc (after s.heth.rxDesc e)).own = false) ∧
      (s.desc (after s.heth.rxDesc d)).ls = true)) (by
    constructor
    · rintro ⟨d, -, holds⟩
      exact ⟨d, holds⟩
    · rintro ⟨d, near, holds⟩
      exact ⟨d, by omega, near, holds⟩)

/-- The task sleeps, nothing is about to wake it, and a frame is there. -/
def Stranded (s : World nb) : Prop :=
  s.pc = .blocked ∧ s.ethSemRx.ctr = 0 ∧ s.flagR = false ∧ s.inIsr = false ∧ s.HoldsFrame

instance (s : World nb) : Decidable s.Stranded :=
  inferInstanceAs (Decidable (_ ∧ _ ∧ _ ∧ _ ∧ s.HoldsFrame))

theorem At.holdsFrame_iff {s : World nb} {g r : Nat} (at' : s.At g r) :
    s.HoldsFrame ↔ ∃ k, r ≤ k ∧ s.wire[k]? = some true := by
  have window := at'.window
  have read := window.read
  have filled := window.filled
  have fits := window.fits
  have segCount := at'.holds.segCount
  have before := at'.holds.before
  unfold HoldsFrame
  rw [window.cursor]
  constructor
  · rintro ⟨d, near, ours, ends⟩
    have here := ours d (Nat.le_refl d)
    rw [after_slot] at here ends
    have inside : r + d < s.wire.length := by
      by_contra beyond
      rw [window.free (r + d) (by omega) (by omega)] at here
      cases here
    refine ⟨r + d, by omega, ?_⟩
    rw [window.last (r + d) (by omega) inside, ends]
  · rintro ⟨k, later, ends⟩
    obtain ⟨inside, -⟩ := List.getElem?_eq_some_iff.mp ends
    refine ⟨k - r, by omega, ?_, ?_⟩
    · intro e le
      rw [after_slot]
      exact window.own (r + e) (by omega) (by omega)
    · have place : r + (k - r) = k := by omega
      rw [after_slot, place]
      have last := window.last k (by omega) inside
      rw [ends, Option.some.injEq] at last
      exact last.symm

theorem At.kept {s s' : World nb} {g g' r : Nat} (at' : s.At g r) (holds : s'.HoldsFrame)
    (after' : s'.At g' r) (wire : s'.wire = s.wire) : s.HoldsFrame := by
  rw [at'.holdsFrame_iff, ← wire]
  exact after'.holdsFrame_iff.mp holds

/-! ## Who looks after a waiting frame -/

structure Attended (s : World nb) : Prop where
  semaphore : s.ethSemRx = .created s.ethSemRx.ctr
  attended : s.HoldsFrame → s.flagR = true ∨ 0 < s.ethSemRx.ctr ∨ s.pc.draining = true
  inHandler : s.inIsr = true → 0 < s.ethSemRx.ctr ∨ s.pc.draining = true
  unlocked : s.heth.locked = true → ∃ count, s.pc = .scan count

theorem Attended.not_stranded {s : World nb} (attended : s.Attended) : ¬ s.Stranded := by
  rintro ⟨blocked, none, quiet, -, holds⟩
  rcases attended.attended holds with flag | credit | draining
  · rw [quiet] at flag
    cases flag
  · omega
  · rw [blocked] at draining
    cases draining

theorem Attended.fill {s s' : World nb} {g r : Nat} {last : Bool} {fl : Nat} (at' : s.At g r)
    (attended : s.Attended) (moved : s.fill last fl = some s') : s'.Attended := by
  have after' := at'.fill moved
  unfold World.fill at moved
  split at moved <;> cases moved
  refine ⟨attended.semaphore, ?_, attended.inHandler, attended.unlocked⟩
  intro holds
  cases last with
  | true => exact .inl (by simp)
  | false =>
      rw [after'.holdsFrame_iff] at holds
      obtain ⟨k, later, ends⟩ := holds
      have before : s.HoldsFrame := by
        rw [at'.holdsFrame_iff]
        refine ⟨k, later, ?_⟩
        obtain ⟨inside, -⟩ := List.getElem?_eq_some_iff.mp ends
        by_cases old : k < s.wire.length
        · rwa [List.getElem?_append_left old] at ends
        · have new : k = s.wire.length := by
            simp only [List.length_append, List.length_singleton] at inside
            omega
          rw [new] at ends
          simp at ends
      simpa using attended.attended before

theorem Attended.irqPost {s s' : World nb} {g r : Nat} (at' : s.At g r) (attended : s.Attended)
    (moved : s.irqPost = some s') : s'.Attended := by
  have after' := at'.irqPost moved
  have semaphore := attended.semaphore
  generalize s.ethSemRx.ctr = c at semaphore
  unfold World.irqPost at moved
  split at moved
  · rename_i pending
    rw [semaphore] at moved
    by_cases asleep : s.pc = .blocked
    · rw [if_pos asleep, osSemPost_waiter] at moved
      cases moved
      refine ⟨rfl, fun _ => .inl pending.1, ?_, ?_⟩
      · intro _
        rw [if_pos asleep]
        exact .inr rfl
      · intro locked
        obtain ⟨count, scanning⟩ := attended.unlocked locked
        rw [asleep] at scanning
        cases scanning
    · rw [if_neg asleep, osSemPost_free] at moved
      by_cases top : c = osSemCtrMax
      · rw [if_pos top] at moved
        cases moved
        refine ⟨rfl, fun _ => .inl pending.1, ?_, attended.unlocked⟩
        intro _
        rw [top]
        exact .inl (Nat.succ_pos _)
      · rw [if_neg top] at moved
        cases moved
        rw [if_neg asleep]
        exact ⟨rfl, fun _ => .inl pending.1, fun _ => .inl (Nat.succ_pos c), attended.unlocked⟩
  · cases moved

theorem Attended.irqClear {s s' : World nb} (attended : s.Attended)
    (moved : s.irqClear = some s') : s'.Attended := by
  unfold World.irqClear at moved
  split at moved <;> cases moved
  rename_i inside
  refine ⟨attended.semaphore, ?_, ?_, ?_⟩
  · intro _
    exact .inr (attended.inHandler inside)
  · intro impossible
    cases impossible
  · intro impossible
    cases impossible

/-- When `pbuf_alloc` fails, no further frame waits or a wake-up is on its way. -/
def Spared (s : World nb) : Act → Prop
  | .task false => s.pc = .alloc → s.HoldsFrame → s.flagR = true ∨ 0 < s.ethSemRx.ctr
  | _ => True

instance (s : World nb) (a : Act) : Decidable (s.Spared a) :=
  match a with
  | .task false => inferInstanceAs (Decidable (_ → _ → _ ∨ _))
  | .fill .. | .irqPost | .irqClear | .halLock _ | .task true => .isTrue trivial

/-- The scan ends without a frame only when no complete one is there. -/
theorem At.scan_empty {s : World nb} {g r count : Nat} (at' : s.At g r)
    (scanning : s.pc = .scan count)
    (ends : ¬ (¬ (s.desc s.heth.rxDesc).own = true ∧ count < nb)) : ¬ s.HoldsFrame := by
  have place := at'.place
  rw [scanning] at place
  obtain ⟨held, bound⟩ := place
  have window := at'.window
  have short := at'.stream.short g r window.read window.filled held.unbroken
  rw [at'.holdsFrame_iff]
  rintro ⟨k, later, last⟩
  obtain ⟨inside, -⟩ := List.getElem?_eq_some_iff.mp last
  have ours := window.own r window.read (by omega)
  rw [window.cursor, ours] at ends
  exact ends ⟨by simp, by omega⟩

theorem Attended.scanSegment {s : World nb} {g r count : Nat} (at' : s.At g r)
    (attended : s.Attended) (outside : s.inIsr = false) (scanning : s.pc = .scan count)
    (ours : (s.desc s.heth.rxDesc).own = false) : (s.scanSegment count).Attended := by
  have after' := at'.scanSegment scanning ours
  have noHandler : ∀ P : Prop, s.inIsr = true → P := by
    intro P inside
    rw [outside] at inside
    cases inside
  unfold World.scanSegment at after' ⊢
  split
  · exact ⟨attended.semaphore, fun _ => .inr (.inr rfl), noHandler _, fun _ => ⟨_, rfl⟩⟩
  · exact ⟨attended.semaphore, fun _ => .inr (.inr rfl), noHandler _, fun _ => ⟨_, rfl⟩⟩
  · rename_i ls
    rw [ls] at after'
    simp only [World.lastSegment] at after' ⊢
    split at after'
    · exact after'.place.elim
    · exact ⟨attended.semaphore, fun _ => .inr (.inr rfl), noHandler _,
        fun locked => by cases locked⟩

theorem Attended.free {s : World nb} (attended : s.Attended)
    (notScanning : ∀ count, s.pc ≠ .scan count) : s.heth.locked = false := by
  cases locked : s.heth.locked with
  | false => rfl
  | true =>
      obtain ⟨count, scanning⟩ := attended.unlocked locked
      exact absurd scanning (notScanning count)

/-- What waits while the task is on its way back to sleep has been announced. -/
theorem Attended.announced {s s' : World nb} {g g' r : Nat} (at' : s.At g r)
    (attended : s.Attended) (idle : s.pc.draining = false) (holds : s'.HoldsFrame)
    (after' : s'.At g' r) (wire : s'.wire = s.wire) :
    s.flagR = true ∨ 0 < s.ethSemRx.ctr := by
  rcases attended.attended (at'.kept holds after' wire) with flag | credit | draining
  · exact .inl flag
  · exact .inr credit
  · rw [idle] at draining
    cases draining

theorem Attended.alloc {s s' : World nb} {g r : Nat} {memory : Bool} (at' : s.At g r)
    (attended : s.Attended) (outside : s.inIsr = false) (spared : s.Spared (.task memory))
    (stands : s.pc = .alloc) (moved : s.task memory = some s') : s'.Attended := by
  have free := attended.free (by simp [stands])
  have place := at'.place
  rw [stands] at place
  obtain ⟨some', held, boundary, counted, length⟩ := place
  have segCount := held.segCount
  have first := held.first (by omega)
  simp only [World.task, stands, first] at moved
  cases moved
  refine ⟨attended.semaphore, ?_, fun inside => by simp [outside] at inside,
    fun locked => absurd locked (by simp [free])⟩
  intro holds
  cases memory with
  | true => exact .inr (.inr (by simpa [Pc.draining] using length))
  | false =>
      have before := at'.kept holds ⟨at'.stream, at'.window, rfl, held, boundary, counted⟩ rfl
      rcases spared stands before with flag | credit
      · exact .inl flag
      · exact .inr (.inl credit)

theorem Attended.release {s s' : World nb} {g r i : Nat} {dmarxdesc : Fin nb} {p memory : Bool}
    (at' : s.At g r) (attended : s.Attended) (outside : s.inIsr = false)
    (stands : s.pc = .release i dmarxdesc p) (moved : s.task memory = some s') :
    s'.Attended := by
  have waits := attended.attended
  have free := attended.free (by simp [stands])
  have kept : s'.HoldsFrame → s.HoldsFrame := by
    intro holds
    have same : s'.wire = s.wire := by
      simp only [World.task, stands] at moved
      split at moved <;> cases moved <;> rfl
    rcases at'.release stands moved with after' | after'
    · exact at'.kept holds after' same
    · exact at'.kept holds after' same
  simp only [World.task, stands] at moved
  rw [stands] at waits
  split at moved
  · cases moved
    exact ⟨attended.semaphore, fun holds => waits (kept holds),
      fun inside => by simp [outside] at inside, fun locked => absurd locked (by simp [free])⟩
  · cases moved
    exact ⟨attended.semaphore, fun holds => waits (kept holds),
      fun inside => by simp [outside] at inside, fun locked => absurd locked (by simp [free])⟩

theorem Attended.task {s s' : World nb} {g r : Nat} {memory : Bool} (at' : s.At g r)
    (attended : s.Attended) (outside : s.inIsr = false) (spared : s.Spared (.task memory))
    (moved : s.task memory = some s') : s'.Attended := by
  have semaphore := attended.semaphore
  have noHandler : ∀ P : Prop, s.inIsr = true → P := by
    intro P inside
    rw [outside] at inside
    cases inside
  cases stands : s.pc with
  | pend =>
      have free := attended.free (by simp [stands])
      have place := at'.place
      rw [stands] at place
      simp only [World.task, stands] at moved
      rw [semaphore] at moved
      cases credits : s.ethSemRx.ctr with
      | zero =>
          rw [credits, osSemPend_zero] at moved
          cases moved
          refine ⟨rfl, ?_, noHandler _, fun locked => absurd locked (by simp [free])⟩
          intro holds
          rcases attended.announced at' (by rw [stands]; rfl) holds
            ⟨at'.stream, at'.window, place⟩ rfl with flag | credit
          · exact .inl flag
          · omega
      | succ c =>
          rw [credits, osSemPend_succ] at moved
          cases moved
          exact ⟨rfl, fun _ => .inr (.inr rfl), noHandler _,
            fun locked => absurd locked (by simp [free])⟩
  | blocked =>
      simp only [World.task, stands] at moved
      cases moved
  | input =>
      have free := attended.free (by simp [stands])
      simp only [World.task, stands, free] at moved
      cases moved
      exact ⟨semaphore, fun _ => .inr (.inr rfl), noHandler _, fun _ => ⟨0, rfl⟩⟩
  | scan count =>
      simp only [World.task, stands] at moved
      split at moved
      · rename_i ours
        cases moved
        exact attended.scanSegment at' outside stands (by simpa using ours.1)
      · rename_i ends
        cases moved
        have place := at'.place
        rw [stands] at place
        refine ⟨semaphore, ?_, noHandler _, fun impossible => by cases impossible⟩
        intro holds
        exact absurd (at'.kept holds ⟨at'.stream, at'.window, place.1⟩ rfl)
          (at'.scan_empty stands ends)
  | alloc => exact attended.alloc at' outside spared stands moved
  | release i dmarxdesc p => exact attended.release at' outside stands moved
  | returned p =>
      have free := attended.free (by simp [stands])
      have place := at'.place
      rw [stands] at place
      simp only [World.task, stands] at moved
      cases moved
      refine ⟨semaphore, ?_, noHandler _, fun locked => absurd locked (by simp [free])⟩
      intro holds
      cases p with
      | true => exact .inr (.inr rfl)
      | false =>
          rcases attended.announced at' (by rw [stands]; rfl) holds
            ⟨at'.stream, at'.window, place⟩ rfl with flag | credit
          · exact .inl flag
          · exact .inr (.inl credit)
  | fault =>
      simp only [World.task, stands] at moved
      cases moved

theorem Attended.init : (World.init : World nb).Attended where
  semaphore := rfl
  attended := by
    intro holds
    obtain ⟨d, -, ours, -⟩ := holds
    cases ours 0 (Nat.zero_le d)
  inHandler := fun inside => by cases inside
  unlocked := fun locked => by cases locked

theorem Attended.step {s s' : World nb} {g r : Nat} {a : Act} (at' : s.At g r)
    (attended : s.Attended) (receive : a.OfReceivePath) (spared : s.Spared a)
    (moved : s.step a = some s') : s'.Attended := by
  cases a with
  | fill last fl => exact attended.fill at' moved
  | irqPost => exact attended.irqPost at' moved
  | irqClear => exact attended.irqClear moved
  | halLock locked => exact receive.elim
  | task memory =>
      simp only [World.step] at moved
      split at moved
      · cases moved
      · rename_i outside
        exact attended.task at' (by simpa using outside) spared moved

/-! ## What happens otherwise -/

/-- Only the task moves, and finds no memory. -/
def LeftAlone (_ : World nb) (a : Act) : Prop := a = .task false

instance (s : World nb) (a : Act) : Decidable (s.LeftAlone a) :=
  inferInstanceAs (Decidable (a = .task false))

/-- A frame waits, and nothing is on its way to wake the task. -/
structure Forgotten (s : World nb) (r : Nat) : Prop where
  at' : ∃ g, s.At g r
  flag : s.flagR = false
  outside : s.inIsr = false
  none : s.ethSemRx = .created 0
  holds : s.HoldsFrame

theorem Forgotten.goes {s s' : World nb} {g r : Nat} (forgotten : s.Forgotten r)
    (after' : s'.At g r) (flag : s'.flagR = s.flagR) (outside : s'.inIsr = s.inIsr)
    (none : s'.ethSemRx = s.ethSemRx) (wire : s'.wire = s.wire) : s'.Forgotten r where
  at' := ⟨g, after'⟩
  flag := flag.trans forgotten.flag
  outside := outside.trans forgotten.outside
  none := none.trans forgotten.none
  holds := by
    obtain ⟨_, before⟩ := forgotten.at'
    exact after'.kept forgotten.holds before wire.symm

theorem Forgotten.task {s s' : World nb} {r : Nat} {i : Nat} {dmarxdesc : Fin nb} {p : Bool}
    (forgotten : s.Forgotten r) (releasing : s.pc = .release i dmarxdesc p)
    (moved : s.task false = some s') : s'.Forgotten r := by
  obtain ⟨g, at'⟩ := forgotten.at'
  have after' : ∃ g', s'.At g' r := by
    rcases at'.release releasing moved with same | given
    · exact ⟨g, same⟩
    · exact ⟨g + 1, given⟩
  obtain ⟨g', after'⟩ := after'
  simp only [World.task, releasing] at moved
  split at moved <;> cases moved <;> exact forgotten.goes after' rfl rfl rfl rfl

theorem Forgotten.move {s s' : World nb} {r : Nat} (forgotten : s.Forgotten r)
    (moved : s.task false = some s') : Runs World.step LeftAlone s [.task false] s' := by
  have allowed : s.LeftAlone (.task false) := rfl
  apply Runs.one allowed
  simp only [World.step, forgotten.outside]
  exact moved

/-- After the frame has been dropped the task finds the semaphore at 0. -/
theorem Forgotten.pends {s : World nb} {r : Nat} (forgotten : s.Forgotten r)
    (returned : s.pc = .returned false) :
    ∃ bs t, Runs World.step LeftAlone s bs t ∧ t.Stranded := by
  obtain ⟨g, at'⟩ := forgotten.at'
  have place := at'.place
  rw [returned] at place
  have leaves : s.task false = some { s with pc := .pend } := by
    simp [World.task, returned]
  have pending : ({ s with pc := .pend } : World nb).Forgotten r :=
    forgotten.goes ⟨at'.stream, at'.window, place⟩ rfl rfl rfl rfl
  have sleeps : ({ s with pc := .pend } : World nb).task false =
      some { s with pc := .blocked } := by
    simp [World.task, forgotten.none]
  have asleep : ({ s with pc := .blocked } : World nb).Forgotten r :=
    forgotten.goes ⟨at'.stream, at'.window, place⟩ rfl rfl rfl rfl
  have drained : ({ s with pc := .blocked } : World nb).ethSemRx.ctr = 0 := by rw [asleep.none]
  exact ⟨_, _, (forgotten.move leaves).trans (pending.move sleeps), rfl, drained, asleep.flag,
    asleep.outside, asleep.holds⟩

/-- The release loop runs to its end, by induction on the descriptors left. -/
theorem Forgotten.sleeps {s : World nb} {i r : Nat} {dmarxdesc : Fin nb}
    (forgotten : s.Forgotten r) (releasing : s.pc = .release i dmarxdesc false) :
    ∃ bs t, Runs World.step LeftAlone s bs t ∧ t.Stranded := by
  induction left : s.heth.rxFrameInfos.segCount - i generalizing s i dmarxdesc with
  | zero =>
      have done : ¬ i < s.heth.rxFrameInfos.segCount := by omega
      obtain ⟨u, moved, returned⟩ :
          ∃ u, s.task false = some u ∧ u.pc = .returned false := by
        simp [World.task, releasing, done]
      obtain ⟨bs, t, run, stranded⟩ := (forgotten.task releasing moved).pends returned
      exact ⟨_, t, (forgotten.move moved).trans run, stranded⟩
  | succ n ih =>
      have more : i < s.heth.rxFrameInfos.segCount := by omega
      obtain ⟨u, moved, releasing', same⟩ : ∃ u, s.task false = some u ∧
          u.pc = .release (i + 1) (dmarxdesc + 1) false ∧
          u.heth.rxFrameInfos.segCount = s.heth.rxFrameInfos.segCount := by
        simp [World.task, releasing, more]
      obtain ⟨bs, t, run, stranded⟩ := ih (forgotten.task releasing moved) releasing' (by omega)
      exact ⟨_, t, (forgotten.move moved).trans run, stranded⟩

theorem At.forgets {s s' : World nb} {g r : Nat} {a : Act} (at' : s.At g r)
    (attended : s.Attended) (unspared : ¬ s.Spared a) (moved : s.step a = some s') :
    ∃ bs t, Runs World.step LeftAlone s' bs t ∧ t.Stranded := by
  unfold Spared at unspared
  split at unspared
  · simp only [not_forall, not_or, Bool.not_eq_true] at unspared
    obtain ⟨stands, holds, flag, none⟩ := unspared
    simp only [World.step] at moved
    split at moved
    · cases moved
    · rename_i outside
      have place := at'.place
      rw [stands] at place
      obtain ⟨some', held, boundary, counted, length⟩ := place
      have segCount := held.segCount
      have first := held.first (by omega)
      have empty : s.ethSemRx = .created 0 := by
        rw [attended.semaphore]
        congr 1
        omega
      have before : s.Forgotten r := ⟨⟨g, at'⟩, flag, by simpa using outside, empty, holds⟩
      simp only [World.task, stands, first] at moved
      cases moved
      have dropping :
          ({ s with pc := .release 0 (slot nb (g - 0)) false } : World nb).Forgotten r :=
        before.goes ⟨at'.stream, at'.window, rfl, held, boundary, counted⟩ rfl rfl rfl rfl
      simpa using dropping.sleeps rfl
  · exact absurd trivial unspared

end World

/-- No frame is stranded in a run in which every frame that is dropped for want of a
    pbuf is the last one there or has a wake-up behind it. Where that fails, the task
    left to itself goes to sleep over a complete frame. -/
theorem no_frame_stranded_while_spared {as : List Act} {s : World nb}
    (run : Runs World.step (fun s a => a.OfReceivePath ∧ s.Spared a) World.init as s) :
    ¬ s.Stranded ∧ ∀ a s', a.OfReceivePath → ¬ s.Spared a → s.step a = some s' →
      ∃ bs t, Runs World.step World.LeftAlone s' bs t ∧ t.Stranded := by
  have kept : (∃ g r, s.At g r) ∧ s.Attended := by
    apply run.invariant
    · exact ⟨⟨0, 0, World.At.init⟩, World.Attended.init⟩
    · intro t a u before allowed moved
      obtain ⟨⟨g, r, at'⟩, attended⟩ := before
      exact ⟨at'.step moved, attended.step at' allowed.1 allowed.2 moved⟩
  obtain ⟨⟨g, r, at'⟩, attended⟩ := kept
  refine ⟨attended.not_stranded, ?_⟩
  intro a s' _ unspared moved
  exact at'.forgets attended unspared moved

/-- Two frames share one interrupt. Nothing is stranded up to the allocation for the
    first one; where that fails, the second one is. -/
theorem no_frame_stranded_while_spared_two :
    ∃ s s' t : World 4,
      Runs World.step (fun s a => a.OfReceivePath ∧ s.Spared a) World.init
        [.fill true 64, .fill true 64, .irqPost, .irqClear, .task true, .task true, .task true] s ∧
      ¬ s.Stranded ∧ s.step (.task false) = some s' ∧
      (∃ bs, Runs World.step World.LeftAlone s' bs t) ∧ t.Stranded := by
  have exhibited : ∃ s : World 4,
      Runs World.step (fun s a => a.OfReceivePath ∧ s.Spared a) World.init
        [.fill true 64, .fill true 64, .irqPost, .irqClear, .task true, .task true, .task true] s ∧
      ¬ s.Spared (.task false) ∧ (s.step (.task false)).isSome = true := exists_run (by decide)
  obtain ⟨s, run, unspared, moves⟩ := exhibited
  obtain ⟨s', moved⟩ := Option.isSome_iff_exists.mp moves
  obtain ⟨fine, otherwise⟩ := no_frame_stranded_while_spared run
  obtain ⟨bs, t, alone, stranded⟩ := otherwise (.task false) s' trivial unspared moved
  exact ⟨s, s', t, run, fine, moved, ⟨bs, alone⟩, stranded⟩

/-- The first of two frames is dropped for want of a pbuf, and the task sleeps over
    the second. -/
theorem frame_stranded :
    ¬ ∀ (as : List Act) (s : World 4),
      Runs World.step (fun _ a => a.OfReceivePath) World.init as s → ¬ s.Stranded := by
  intro never
  have exhibited : ∃ s : World 4,
      Runs World.step (fun _ a => a.OfReceivePath) World.init
        [.fill true 64, .fill true 64, .irqPost, .irqClear, .task true, .task true, .task true,
          .task false, .task true, .task true, .task true, .task true] s ∧ s.Stranded :=
    exists_run (by decide)
  obtain ⟨s, run, stranded⟩ := exhibited
  exact never _ s run stranded

end ExploreF407.Eth
