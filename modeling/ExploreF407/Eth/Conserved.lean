import ExploreF407.Eth.Positions

/-! # Receive descriptors are conserved

What the positions mean for the descriptors themselves, in the terms of the driver:
ownership bits, `RxDesc`, `FSRxDesc` and `SegCount`.
-/

namespace ExploreF407.Eth

open Kernel Machine Ring Framing

variable {nb : Nat} [NeZero nb]

namespace World

/-- Descriptors of the current frame that the release loop has passed. -/
def released (s : World nb) : Nat :=
  match s.pc with
  | .release i _ _ => i
  | _ => 0

def DmaOwned (s : World nb) (i : Fin nb) : Prop := (s.desc i).own = true

/-- One of the `SegCount` descriptors from `FSRxDesc` on. -/
def Held (s : World nb) (i : Fin nb) : Prop :=
  (s.desc i).own = false ∧ ∃ first d, s.heth.rxFrameInfos.fsRxDesc = some first ∧
    s.released ≤ d ∧ d < s.heth.rxFrameInfos.segCount ∧ i = after first d

/-- At or after `RxDesc`, not beyond the held ones. -/
def Unread (s : World nb) (i : Fin nb) : Prop :=
  (s.desc i).own = false ∧ ∃ d, s.heth.rxFrameInfos.segCount - s.released + d < nb ∧
    i = after s.heth.rxDesc d

/-- What holds of the driver's record between two calls of `low_level_input`. -/
structure Conserved (s : World nb) : Prop where
  fewer : s.heth.rxFrameInfos.segCount < nb
  cursor : 0 < s.heth.rxFrameInfos.segCount → ∃ first,
    s.heth.rxFrameInfos.fsRxDesc = some first ∧
      s.heth.rxDesc = after first s.heth.rxFrameInfos.segCount
  seen : ∀ first d, s.heth.rxFrameInfos.fsRxDesc = some first →
    d < s.heth.rxFrameInfos.segCount →
      (s.desc (after first d)).own = false ∧ (s.desc (after first d)).ls = false ∧
        ((s.desc (after first d)).fs = true ↔ d = 0)
  nothingSeen : s.heth.rxFrameInfos.segCount = 0 → (s.desc s.heth.rxDesc).own = false →
    (s.desc s.heth.rxDesc).fs = true
  givenOnce : s.given.Nodup
  givenBack : ∀ k, k ∈ s.given ↔ k < s.wire.length ∧ frameOf s.wire k < s.handled

theorem At.holds {s : World nb} {g r : Nat} (at' : s.At g r) :
    Holds s.released s.heth.rxFrameInfos g r := by
  have place := at'.place
  unfold released
  cases stands : s.pc with
  | pend | blocked | input | returned p => rw [stands] at place; exact place.holds
  | scan count => rw [stands] at place; exact place.1.holds
  | alloc => rw [stands] at place; exact place.2.1
  | release i dmarxdesc p => rw [stands] at place; exact place.2.1
  | fault => rw [stands] at place; exact place.elim

theorem At.partition {s : World nb} {g r : Nat} (at' : s.At g r) (i : Fin nb) :
    (s.DmaOwned i ∨ s.Unread i ∨ s.Held i) ∧ ¬ (s.Unread i ∧ s.Held i) := by
  have window := at'.window
  have read := window.read
  have filled := window.filled
  have holds := at'.holds
  have before := holds.before
  have segCount := holds.segCount
  constructor
  · obtain ⟨k, from', below, cell⟩ := exists_slot g i
    subst cell
    by_cases beyond : s.wire.length ≤ k
    · exact .inl (window.free k beyond below)
    · have ours := window.own k from' (by omega)
      by_cases seen : k < r
      · refine .inr (.inr ⟨ours, slot nb (g - s.released), k - (g - s.released),
          holds.first (by omega), by omega, by omega, ?_⟩)
        rw [after_slot]
        congr 1
        omega
      · refine .inr (.inl ⟨ours, k - r, by omega, ?_⟩)
        rw [window.cursor, after_slot]
        congr 1
        omega
  · rintro ⟨⟨-, d, near, unread⟩, -, first, e, points, from', below, held⟩
    have start := holds.first (by omega)
    rw [points, Option.some.injEq] at start
    rw [start, after_slot] at held
    rw [window.cursor, after_slot] at unread
    have same := slot_inj (a := g) (by omega) (by omega) (by omega) (by omega)
      (held.symm.trans unread)
    omega

theorem At.conserved {s : World nb} {g r : Nat} (at' : s.At g r)
    (held : Partial s.heth.rxFrameInfos s.wire s.handled g r) : s.Conserved := by
  have window := at'.window
  have read := window.read
  have filled := window.filled
  have short := at'.stream.short g r read filled held.unbroken
  have segCount := held.holds.segCount
  constructor
  case fewer => omega
  case cursor =>
    intro some'
    refine ⟨_, held.holds.first some', ?_⟩
    rw [window.cursor, after_slot]
    congr 1
    omega
  case seen =>
    intro first d points below
    have start := held.holds.first (by omega)
    rw [points, Option.some.injEq, Nat.sub_zero] at start
    rw [start, after_slot]
    have last := window.last (g + d) (by omega) (by omega)
    rw [held.unbroken (g + d) (by omega) (by omega), Option.some.injEq] at last
    refine ⟨window.own _ (by omega) (by omega), last.symm, ?_⟩
    rw [window.first _ (by omega) (by omega)]
    constructor
    · intro boundary
      by_contra later
      exact held.unbroken.not_boundary (by omega) (by omega) boundary
    · intro zero
      rw [zero]
      exact held.boundary
  case nothingSeen =>
    intro none ours
    have inside := at'.found held.unbroken ours
    rw [at'.starts held inside]
    omega
  case givenOnce =>
    rw [window.given]
    exact List.nodup_range
  case givenBack =>
    intro k
    rw [window.given, List.mem_range, held.handled]
    constructor
    · intro before
      exact ⟨by omega, held.boundary.frameOf_lt before⟩
    · rintro ⟨-, earlier⟩
      by_contra later
      have le : frameOf s.wire g ≤ frameOf s.wire k := frameOf_mono (by omega)
      omega

theorem At.between {s : World nb} {g r : Nat} (at' : s.At g r) (boundary : s.AtBoundary) :
    Partial s.heth.rxFrameInfos s.wire s.handled g r := by
  have place := at'.place
  unfold AtBoundary at boundary
  cases stands : s.pc with
  | pend | blocked | input | returned p =>
      rw [stands] at place
      exact place
  | scan count | alloc | release i dmarxdesc p | fault =>
      rw [stands] at boundary
      exact boundary.elim

end World

/-- In every run each descriptor is owned by the DMA, waits to be read, or is held for
    the frame in hand, and between two calls the driver's record says which. -/
theorem descriptors_conserved {as : List Act} {s : World nb}
    (run : Runs World.step anyStep World.init as s) :
    (∀ i, (s.DmaOwned i ∨ s.Unread i ∨ s.Held i) ∧ ¬ (s.Unread i ∧ s.Held i)) ∧
      s.pc ≠ .fault ∧ (s.AtBoundary → s.Conserved) := by
  obtain ⟨g, r, at'⟩ := World.reachable_at run
  have place := at'.place
  refine ⟨at'.partition, ?_, ?_⟩
  · intro fault
    rw [fault] at place
    exact place
  · intro boundary
    exact at'.conserved (at'.between boundary)

/-- A frame of two segments is read and given back; of the next one the driver has
    seen the first segment. -/
theorem descriptors_conserved_four :
    ∃ s : World 4,
      Runs World.step anyStep World.init
        [.fill false 0, .fill true 1600, .irqPost, .irqClear, .task true, .task true,
          .fill false 0, .task true, .task true, .task true, .task true, .task true, .task true,
          .task true, .task true, .task true, .task true] s ∧
      s.given = [0, 1] ∧ s.heth.rxFrameInfos.segCount = 1 ∧ s.Conserved := by
  have exhibited : ∃ s : World 4,
      Runs World.step anyStep World.init
        [.fill false 0, .fill true 1600, .irqPost, .irqClear, .task true, .task true,
          .fill false 0, .task true, .task true, .task true, .task true, .task true, .task true,
          .task true, .task true, .task true, .task true] s ∧
      s.pc = .returned false ∧ s.given = [0, 1] ∧ s.heth.rxFrameInfos.segCount = 1 :=
    exists_run (by decide)
  obtain ⟨s, run, returned, given, segCount⟩ := exhibited
  have boundary : s.AtBoundary := by
    unfold World.AtBoundary
    rw [returned]
    trivial
  exact ⟨s, run, given, segCount, (descriptors_conserved run).2.2 boundary⟩

end ExploreF407.Eth
