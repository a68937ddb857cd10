import ExploreF407.Eth.Receive
import ExploreF407.Lib.Machine

/-! # Positions in the receive ring

Segments are numbered in the order in which the DMA fills them. At any time three
positions divide the ring: everything before `g` has been given back, `g` up to `r`
is held by the driver, `r` up to the end of the stream waits to be read, and the
rest of the window of `nb` positions from `g` on belongs to the DMA.
-/

namespace ExploreF407.Eth

open Kernel Machine Ring Framing

variable {nb : Nat} [NeZero nb]

/-- The DMA side: the frame it is filling, and that no frame is longer than the
    ring. -/
structure Stream (nb dmaSegs : Nat) (wire : List Bool) : Prop where
  started : dmaSegs ≤ wire.length
  boundary : Boundary wire (wire.length - dmaSegs)
  unbroken : Unbroken wire (wire.length - dmaSegs) wire.length
  short : ∀ a b, a ≤ b → b ≤ wire.length → Unbroken wire a b → b - a < nb

structure Window (desc : Fin nb → RxDesc) (dmaDesc rxDesc : Fin nb) (wire : List Bool)
    (given : List Nat) (g r : Nat) : Prop where
  given : given = List.range g
  read : g ≤ r
  filled : r ≤ wire.length
  fits : wire.length ≤ g + nb
  dma : dmaDesc = slot nb wire.length
  cursor : rxDesc = slot nb r
  own : ∀ k, g ≤ k → k < wire.length → (desc (slot nb k)).own = false
  serial : ∀ k, g ≤ k → k < wire.length → (desc (slot nb k)).serial = k
  first : ∀ k, g ≤ k → k < wire.length → ((desc (slot nb k)).fs = true ↔ Boundary wire k)
  last : ∀ k, g ≤ k → k < wire.length → wire[k]? = some (desc (slot nb k)).ls
  sized : ∀ k, g ≤ k → wire[k]? = some true →
    4 < (desc (slot nb k)).fl ∧ (desc (slot nb k)).fl < 2 ^ 14
  free : ∀ k, wire.length ≤ k → k < g + nb → (desc (slot nb k)).own = true

/-- `i` descriptors of the frame in `infos` have been given back, those from `g` up to
    `r` have not. -/
structure Holds (i : Nat) (infos : RxFrameInfos nb) (g r : Nat) : Prop where
  before : i ≤ g
  segCount : infos.segCount = i + (r - g)
  first : 0 < infos.segCount → infos.fsRxDesc = some (slot nb (g - i))

/-- The driver has seen the segments from `g` up to `r` of a frame which goes on. -/
structure Partial (infos : RxFrameInfos nb) (wire : List Bool) (handled g r : Nat) : Prop where
  holds : Holds 0 infos g r
  boundary : Boundary wire g
  unbroken : Unbroken wire g r
  handled : handled = frameOf wire g

def Place (wire : List Bool) (handled : Nat) (infos : RxFrameInfos nb) (g r : Nat) :
    Pc nb → Prop
  | .pend | .blocked | .input | .returned _ => Partial infos wire handled g r
  | .scan count => Partial infos wire handled g r ∧ count ≤ r - g
  | .alloc => g < r ∧ Holds 0 infos g r ∧ Boundary wire r ∧ handled + 1 = frameOf wire r ∧
      0 < infos.length % 2 ^ 16
  | .release i dmarxdesc _ =>
      dmarxdesc = slot nb g ∧ Holds i infos g r ∧ Boundary wire r ∧ handled + 1 = frameOf wire r
  | .fault => False

structure World.At (s : World nb) (g r : Nat) : Prop where
  stream : Stream nb s.dmaSegs s.wire
  window : Window s.desc s.dmaDesc s.heth.rxDesc s.wire s.given g r
  place : Place s.wire s.handled s.heth.rxFrameInfos g r s.pc

/-! ## The DMA -/

omit [NeZero nb] in
theorem Stream.first_iff {dmaSegs : Nat} {wire : List Bool} (stream : Stream nb dmaSegs wire) :
    dmaSegs = 0 ↔ Boundary wire wire.length := by
  constructor
  · intro zero
    have boundary := stream.boundary
    rwa [zero] at boundary
  · intro boundary
    by_contra inside
    have started := stream.started
    exact stream.unbroken.not_boundary (by omega) (Nat.le_refl _) boundary

theorem Stream.fill {dmaSegs : Nat} {wire : List Bool} (stream : Stream nb dmaSegs wire)
    {last : Bool} (short : last = false → dmaSegs + 1 < nb) :
    Stream nb (if last then 0 else dmaSegs + 1) (wire ++ [last]) := by
  have positive := Nat.pos_of_neZero nb
  have end' : (wire ++ [last])[wire.length]? = some last := by simp
  have started := stream.started
  constructor
  case started =>
    cases last with
    | true => simp
    | false =>
        simp only [List.length_append, List.length_singleton, Bool.false_eq_true, if_false]
        omega
  case boundary =>
    cases last with
    | true =>
        simp only [if_true, List.length_append, List.length_singleton]
        exact end'
    | false =>
        have same : (wire ++ [false]).length - (dmaSegs + 1) = wire.length - dmaSegs := by
          simp only [List.length_append, List.length_singleton]
          omega
        simp only [Bool.false_eq_true, if_false, same]
        exact (boundary_append (by omega) false).mpr stream.boundary
  case unbroken =>
    cases last with
    | true =>
        intro k from' below
        simp at from' below
        omega
    | false =>
        have same : (wire ++ [false]).length - (dmaSegs + 1) = wire.length - dmaSegs := by
          simp only [List.length_append, List.length_singleton]
          omega
        simp only [Bool.false_eq_true, if_false, same]
        simp only [List.length_append, List.length_singleton]
        exact (stream.unbroken.append false).snoc end'
  case short =>
    intro a b le inside unbroken
    simp only [List.length_append, List.length_singleton] at inside
    have back : ∀ c, c ≤ wire.length → c ≤ b → Unbroken wire a c := by
      intro c below le' k from' before
      have here := unbroken k from' (by omega)
      rwa [List.getElem?_append_left (by omega)] at here
    rcases Nat.lt_succ_iff_lt_or_eq.mp (Nat.lt_succ_of_le inside) with before | rfl
    · exact stream.short a b le (by omega) (back b (by omega) (Nat.le_refl _))
    · by_cases empty : a = wire.length + 1
      · omega
      · have here := unbroken wire.length (by omega) (by omega)
        rw [end'] at here
        have goesOn : last = false := by simpa using here
        have inFrame : wire.length - dmaSegs ≤ a := by
          by_contra early
          exact (back wire.length (Nat.le_refl _) (by omega)).not_boundary (by omega) (by omega)
            stream.boundary
        have room := short goesOn
        omega

/-- The DMA owns the descriptor it fills, so the ring is not full. -/
theorem Window.room {desc : Fin nb → RxDesc} {dmaDesc rxDesc : Fin nb} {wire : List Bool}
    {given : List Nat} {g r : Nat} (window : Window desc dmaDesc rxDesc wire given g r)
    (owns : (desc dmaDesc).own = true) : wire.length < g + nb := by
  have positive := Nat.pos_of_neZero nb
  by_contra full
  have whole : wire.length = g + nb := Nat.le_antisymm window.fits (Nat.le_of_not_lt full)
  have taken := window.own g (Nat.le_refl _) (by omega)
  rw [window.dma, whole, slot_add_self, taken] at owns
  cases owns

theorem Window.fill {desc : Fin nb → RxDesc} {dmaDesc rxDesc : Fin nb} {wire : List Bool}
    {given : List Nat} {g r : Nat} (window : Window desc dmaDesc rxDesc wire given g r)
    (owns : (desc dmaDesc).own = true) {first last : Bool} (fl : Nat)
    (size : last = true → 4 < fl ∧ fl < 2 ^ 14)
    (starts : first = true ↔ Boundary wire wire.length) :
    Window (Function.update desc dmaDesc
        { own := false, fs := first, ls := last, fl := fl, serial := wire.length })
      (dmaDesc + 1) rxDesc (wire ++ [last]) given g r := by
  have room := window.room owns
  have read := window.read
  have filled := window.filled
  have length : (wire ++ [last]).length = wire.length + 1 := by simp
  rw [window.dma]
  have other : ∀ k, g ≤ k → k < g + nb → k ≠ wire.length → ∀ x,
      Function.update desc (slot nb wire.length) x (slot nb k) = desc (slot nb k) := by
    intro k from' below apart x
    exact update_slot_of_ne from' below (by omega) room apart desc x
  constructor
  case given => exact window.given
  case read => exact read
  case filled => omega
  case fits => omega
  case dma => rw [length, slot_succ]
  case cursor => exact window.cursor
  case own =>
    intro k from' below
    by_cases here : k = wire.length
    · rw [here, Function.update_self]
    · rw [other k from' (by omega) here]
      exact window.own k from' (by omega)
  case serial =>
    intro k from' below
    by_cases here : k = wire.length
    · rw [here, Function.update_self]
    · rw [other k from' (by omega) here]
      exact window.serial k from' (by omega)
  case first =>
    intro k from' below
    rw [boundary_append (by omega)]
    by_cases here : k = wire.length
    · rw [here, Function.update_self]
      exact starts
    · rw [other k from' (by omega) here]
      exact window.first k from' (by omega)
  case last =>
    intro k from' below
    by_cases here : k = wire.length
    · rw [here, Function.update_self]
      simp
    · rw [other k from' (by omega) here, List.getElem?_append_left (by omega)]
      exact window.last k from' (by omega)
  case sized =>
    intro k from' ends
    obtain ⟨below, -⟩ := List.getElem?_eq_some_iff.mp ends
    by_cases here : k = wire.length
    · rw [here] at ends ⊢
      rw [Function.update_self]
      exact size (by simpa using ends)
    · rw [other k from' (by omega) here]
      rw [List.getElem?_append_left (by omega)] at ends
      exact window.sized k from' ends
  case free =>
    intro k from' below
    rw [other k (by omega) below (by omega)]
    exact window.free k (by omega) below

omit [NeZero nb] in
theorem Partial.fill [NeZero nb] {infos : RxFrameInfos nb} {wire : List Bool}
    {handled g r : Nat} (held : Partial infos wire handled g r) (le : g ≤ wire.length)
    (last : Bool) : Partial infos (wire ++ [last]) handled g r where
  holds := held.holds
  boundary := (boundary_append le last).mpr held.boundary
  unbroken := held.unbroken.append last
  handled := held.handled.trans (frameOf_append le last).symm

theorem Place.fill {wire : List Bool} {handled g r : Nat} {infos : RxFrameInfos nb} {pc : Pc nb}
    (place : Place wire handled infos g r pc) (le : g ≤ r) (le' : r ≤ wire.length)
    (last : Bool) : Place (wire ++ [last]) handled infos g r pc := by
  cases pc with
  | pend | blocked | input | returned p => exact Partial.fill place (by omega) last
  | scan count => exact ⟨place.1.fill (by omega) last, place.2⟩
  | alloc =>
      obtain ⟨some', holds, boundary, counted, length⟩ := place
      exact ⟨some', holds, (boundary_append le' last).mpr boundary,
        counted.trans (frameOf_append le' last).symm, length⟩
  | release i dmarxdesc p =>
      obtain ⟨here, holds, boundary, counted⟩ := place
      exact ⟨here, holds, (boundary_append le' last).mpr boundary,
        counted.trans (frameOf_append le' last).symm⟩
  | fault => exact place

theorem World.At.fill {s s' : World nb} {g r : Nat} (at' : s.At g r) {last : Bool} {fl : Nat}
    (moved : s.fill last fl = some s') : s'.At g r := by
  unfold World.fill at moved
  split at moved
  · rename_i allowed
    obtain ⟨owns, size, short⟩ := allowed
    cases moved
    constructor
    case stream => exact at'.stream.fill short
    case window =>
      apply at'.window.fill owns fl size
      rw [← at'.stream.first_iff, decide_eq_true_iff]
    case place => exact at'.place.fill at'.window.read at'.window.filled last
  · cases moved

/-! ## The interrupt handler -/

theorem World.At.irqPost {s s' : World nb} {g r : Nat} (at' : s.At g r)
    (moved : s.irqPost = some s') : s'.At g r := by
  unfold World.irqPost at moved
  split at moved
  · split at moved
    · cases moved
      refine ⟨at'.stream, at'.window, ?_⟩
      by_cases asleep : s.pc = .blocked
      · have place := at'.place
        rw [asleep] at place
        rw [if_pos asleep]
        exact place
      · rw [if_neg asleep]
        exact at'.place
    · cases moved
      exact ⟨at'.stream, at'.window, at'.place⟩
  · cases moved

theorem World.At.irqClear {s s' : World nb} {g r : Nat} (at' : s.At g r)
    (moved : s.irqClear = some s') : s'.At g r := by
  unfold World.irqClear at moved
  split at moved
  · cases moved
    exact ⟨at'.stream, at'.window, at'.place⟩
  · cases moved

/-! ## The scan -/

theorem World.At.found {s : World nb} {g r : Nat} (at' : s.At g r)
    (unbroken : Unbroken s.wire g r) (ours : (s.desc s.heth.rxDesc).own = false) :
    r < s.wire.length := by
  have window := at'.window
  have read := window.read
  have filled := window.filled
  by_contra none
  have all : r = s.wire.length := by omega
  have short := at'.stream.short g r read (by omega) unbroken
  have owned := window.free r (by omega) (by omega)
  rw [← window.cursor, ours] at owned
  cases owned

theorem Holds.one {infos : RxFrameInfos nb} {g : Nat} (segCount : infos.segCount = 1)
    (first : infos.fsRxDesc = some (slot nb g)) : Holds 0 infos g (g + 1) where
  before := Nat.zero_le g
  segCount := by omega
  first := fun _ => first

theorem Holds.more {infos infos' : RxFrameInfos nb} {g r : Nat} (holds : Holds 0 infos g r)
    (some' : g < r) (segCount : infos'.segCount = infos.segCount + 1)
    (first : infos'.fsRxDesc = infos.fsRxDesc) : Holds 0 infos' g (r + 1) where
  before := Nat.zero_le g
  segCount := by
    have before := holds.segCount
    omega
  first := by
    intro _
    have before := holds.segCount
    rw [first]
    exact holds.first (by omega)

/-- The segment under the cursor starts a frame exactly when the driver holds none. -/
theorem World.At.starts {s : World nb} {g r : Nat} (at' : s.At g r)
    (held : Partial s.heth.rxFrameInfos s.wire s.handled g r) (inside : r < s.wire.length) :
    (s.desc s.heth.rxDesc).fs = true ↔ r = g := by
  have window := at'.window
  have read := window.read
  rw [window.cursor, window.first r read inside]
  constructor
  · intro boundary
    by_contra later
    exact held.unbroken.not_boundary (by omega) (Nat.le_refl r) boundary
  · intro same
    rw [same]
    exact held.boundary

theorem Window.advance {desc : Fin nb → RxDesc} {dmaDesc rxDesc : Fin nb} {wire : List Bool}
    {given : List Nat} {g r : Nat} (window : Window desc dmaDesc rxDesc wire given g r)
    (inside : r < wire.length) : Window desc dmaDesc (rxDesc + 1) wire given g (r + 1) :=
  { window with
    read := Nat.le_succ_of_le window.read
    filled := inside
    cursor := by rw [window.cursor, slot_succ] }

theorem World.At.scanSegment {s : World nb} {g r count : Nat} (at' : s.At g r)
    (scanning : s.pc = .scan count) (ours : (s.desc s.heth.rxDesc).own = false) :
    (s.scanSegment count).At g (r + 1) := by
  have place := at'.place
  rw [scanning] at place
  obtain ⟨held, bound⟩ := place
  have inside := at'.found held.unbroken ours
  have read := at'.window.read
  have starts := at'.starts held inside
  have last := at'.window.last r read inside
  rw [← at'.window.cursor] at last
  have cursor : some s.heth.rxDesc = some (slot nb r) := congrArg some at'.window.cursor
  have advanced := at'.window.advance inside
  unfold World.scanSegment
  split
  · rename_i fs ls
    have here := starts.mp fs
    subst here
    rw [ls] at last
    refine ⟨at'.stream, advanced, ?_, by omega⟩
    exact ⟨Holds.one rfl cursor, held.boundary, held.unbroken.snoc last, held.handled⟩
  · rename_i fs ls
    have later : r ≠ g := by
      rw [ne_eq, ← starts, fs]
      simp
    rw [ls] at last
    refine ⟨at'.stream, advanced, ?_, by omega⟩
    exact ⟨held.holds.more (by omega) rfl rfl, held.boundary, held.unbroken.snoc last,
      held.handled⟩
  · rename_i ls
    rw [ls] at last
    have counted : s.handled + 1 = frameOf s.wire (r + 1) := by
      rw [frameOf_succ last, held.unbroken.frameOf_eq read, held.handled]
      rfl
    have segCount := held.holds.segCount
    have size := at'.window.sized r read last
    rw [← at'.window.cursor] at size
    have length : 0 < ((s.desc s.heth.rxDesc).fl + 2 ^ 32 - 4) % 2 ^ 32 % 2 ^ 16 := by omega
    by_cases here : r = g
    · subst here
      have one : s.heth.rxFrameInfos.segCount + 1 = 1 := by omega
      simp only [World.lastSegment, one, if_true]
      exact ⟨at'.stream, advanced, by omega, Holds.one rfl cursor, last, counted,
        length⟩
    · have more : s.heth.rxFrameInfos.segCount + 1 ≠ 1 := by omega
      have first := held.holds.first (by omega)
      simp only [World.lastSegment, more, if_false, first]
      exact ⟨at'.stream, advanced, by omega, held.holds.more (by omega) rfl first.symm, last,
        counted, length⟩

/-! ## The release -/

theorem Window.give {desc : Fin nb → RxDesc} {dmaDesc rxDesc : Fin nb} {wire : List Bool}
    {given : List Nat} {g r : Nat} (window : Window desc dmaDesc rxDesc wire given g r)
    (held : g < r) :
    Window (Function.update desc (slot nb g) { desc (slot nb g) with own := true }) dmaDesc
      rxDesc wire (given ++ [(desc (slot nb g)).serial]) (g + 1) r := by
  have filled := window.filled
  have fits := window.fits
  have other : ∀ k, g + 1 ≤ k → k < g + nb → ∀ x,
      Function.update desc (slot nb g) x (slot nb k) = desc (slot nb k) := by
    intro k from' below x
    exact update_slot_of_ne (by omega) below (Nat.le_refl g) (by omega) (by omega) desc x
  constructor
  case given =>
    rw [window.given, window.serial g (Nat.le_refl g) (by omega), List.range_succ]
  case read => exact held
  case filled => exact filled
  case fits => omega
  case dma => exact window.dma
  case cursor => exact window.cursor
  case own =>
    intro k from' below
    rw [other k from' (by omega)]
    exact window.own k (by omega) below
  case serial =>
    intro k from' below
    rw [other k from' (by omega)]
    exact window.serial k (by omega) below
  case first =>
    intro k from' below
    rw [other k from' (by omega)]
    exact window.first k (by omega) below
  case last =>
    intro k from' below
    rw [other k from' (by omega)]
    exact window.last k (by omega) below
  case sized =>
    intro k from' ends
    obtain ⟨below, -⟩ := List.getElem?_eq_some_iff.mp ends
    rw [other k from' (by omega)]
    exact window.sized k (by omega) ends
  case free =>
    intro k from' below
    by_cases around : k = g + nb
    · rw [around, slot_add_self, Function.update_self]
    · rw [other k (by omega) (by omega)]
      exact window.free k from' (by omega)

/-! ## The task -/

theorem World.At.release {s s' : World nb} {g r i : Nat} {dmarxdesc : Fin nb} {p memory : Bool}
    (at' : s.At g r) (releasing : s.pc = .release i dmarxdesc p)
    (moved : s.task memory = some s') : s'.At g r ∨ s'.At (g + 1) r := by
  have place := at'.place
  rw [releasing] at place
  obtain ⟨here, holds, boundary, counted⟩ := place
  subst here
  have read := at'.window.read
  have before := holds.before
  have segCount := holds.segCount
  simp only [World.task, releasing] at moved
  split at moved
  · rename_i more
    cases moved
    have first := holds.first (by omega)
    refine .inr ⟨at'.stream, at'.window.give (by omega), ?_, ?_, boundary, counted⟩
    · rw [slot_succ]
    · refine ⟨by omega, by dsimp only; omega, ?_⟩
      intro _
      rw [first]
      congr 2
      omega
  · rename_i done
    cases moved
    have all : g = r := by omega
    subst all
    refine .inl ⟨at'.stream, at'.window, ?_⟩
    refine ⟨⟨by omega, by simp, fun some' => absurd some' (by simp)⟩, boundary, ?_, counted⟩
    intro k from' below
    omega

theorem World.At.task {s s' : World nb} {g r : Nat} {memory : Bool} (at' : s.At g r)
    (moved : s.task memory = some s') :
    s'.At g r ∨ s'.At (g + 1) r ∨ s'.At g (r + 1) := by
  have place := at'.place
  cases stands : s.pc with
  | pend =>
      rw [stands] at place
      simp only [World.task, stands] at moved
      split at moved <;> cases moved
      · exact .inl ⟨at'.stream, at'.window, place⟩
      · exact .inl ⟨at'.stream, at'.window, place⟩
      · exact .inl at'
  | blocked =>
      simp only [World.task, stands] at moved
      cases moved
  | input =>
      rw [stands] at place
      simp only [World.task, stands] at moved
      split at moved <;> cases moved
      · exact .inl ⟨at'.stream, at'.window, place⟩
      · exact .inl ⟨at'.stream, at'.window, place, Nat.zero_le _⟩
  | scan count =>
      rw [stands] at place
      simp only [World.task, stands] at moved
      split at moved <;> cases moved
      · rename_i ours
        exact .inr (.inr (at'.scanSegment stands (by simpa using ours.1)))
      · exact .inl ⟨at'.stream, at'.window, place.1⟩
  | alloc =>
      rw [stands] at place
      obtain ⟨some', holds, boundary, counted, -⟩ := place
      have segCount := holds.segCount
      have first := holds.first (by omega)
      simp only [World.task, stands, first] at moved
      cases moved
      exact .inl ⟨at'.stream, at'.window, rfl, holds, boundary, counted⟩
  | release i dmarxdesc p =>
      rcases at'.release stands moved with same | given
      · exact .inl same
      · exact .inr (.inl given)
  | returned p =>
      rw [stands] at place
      simp only [World.task, stands] at moved
      cases moved
      cases p <;> exact .inl ⟨at'.stream, at'.window, place⟩
  | fault =>
      simp only [World.task, stands] at moved
      cases moved

theorem World.At.init : (World.init : World nb).At 0 0 where
  stream := ⟨Nat.le_refl 0, trivial, fun k _ below => absurd below (Nat.not_lt_zero k),
    fun a b le inside _ => by
      have positive := Nat.pos_of_neZero nb
      simp [World.init] at inside
      omega⟩
  window := by
    constructor
    all_goals simp [World.init, slot_zero]
  place := ⟨⟨Nat.le_refl 0, rfl, fun some' => absurd some' (Nat.lt_irrefl 0)⟩, trivial,
    fun k _ below => absurd below (Nat.not_lt_zero k), rfl⟩

theorem World.At.step {s s' : World nb} {g r : Nat} {a : Act} (at' : s.At g r)
    (moved : s.step a = some s') : ∃ g' r', s'.At g' r' := by
  cases a with
  | fill last fl => exact ⟨g, r, at'.fill moved⟩
  | irqPost => exact ⟨g, r, at'.irqPost moved⟩
  | irqClear => exact ⟨g, r, at'.irqClear moved⟩
  | halLock locked =>
      simp only [World.step] at moved
      split at moved <;> cases moved
      exact ⟨g, r, at'.stream, at'.window, at'.place⟩
  | task memory =>
      simp only [World.step] at moved
      split at moved
      · cases moved
      · rcases at'.task moved with same | given | seen
        · exact ⟨g, r, same⟩
        · exact ⟨g + 1, r, given⟩
        · exact ⟨g, r + 1, seen⟩

theorem World.reachable_at {ok : World nb → Act → Prop} {as : List Act} {s : World nb}
    (run : Runs World.step ok World.init as s) : ∃ g r, s.At g r := by
  apply run.invariant
  · exact ⟨0, 0, World.At.init⟩
  · intro t a u before _ moved
    obtain ⟨g, r, at'⟩ := before
    exact at'.step moved

end ExploreF407.Eth
