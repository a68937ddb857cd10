import ExploreF407.Lib.Bits

/-! # The bitmap of priorities

`os_prio.c` keeps the priorities with a ready task in `OSPrioTbl`. The number of
priorities, `OS_CFG_PRIO_MAX`, selects one of three versions of each function at
compile time: for one word, which this configuration uses, for two words, and
for a table that is searched by a loop. An `OS_PRIO` has 8 bits.
-/

namespace ExploreF407.Kernel

/-! ## One word -/

def osPrioInsert (word : BitVec 32) (prio : Nat) : BitVec 32 :=
  word ||| 1#32 <<< (32 - 1 - prio)

def osPrioRemove (word : BitVec 32) (prio : Nat) : BitVec 32 :=
  word &&& ~~~(1#32 <<< (32 - 1 - prio))

/-- `CPU_CntLeadZeros` is the processor's count of leading zeros. -/
def osPrioGetHighest (word : BitVec 32) : Nat := word.clz.toNat % 2 ^ 8

theorem getMsbD_osPrioInsert {prio : Nat} (inside : prio < 32) (word : BitVec 32) (p : Nat) :
    (osPrioInsert word prio).getMsbD p = (word.getMsbD p || decide (p = prio)) :=
  Bits.getMsbD_set inside p

theorem getMsbD_osPrioRemove {prio : Nat} (inside : prio < 32) (word : BitVec 32) (p : Nat) :
    (osPrioRemove word prio).getMsbD p = (word.getMsbD p && !decide (p = prio)) :=
  Bits.getMsbD_clear inside p

theorem osPrioGetHighest_isLeast {word : BitVec 32} (some' : word ≠ 0#32) :
    IsLeast {p | word.getMsbD p = true} (osPrioGetHighest word) := by
  have small : word.clz.toNat % 2 ^ 8 = word.clz.toNat := by
    have := Bits.clz_lt some'
    omega
  simpa only [osPrioGetHighest, small] using Bits.clz_isLeast some'

/-! ## Two words -/

structure PrioPair where
  first : BitVec 32
  second : BitVec 32
  deriving Repr, DecidableEq

namespace PrioPair

def insert (tbl : PrioPair) (prio : Nat) : PrioPair :=
  if prio < 32 then { tbl with first := tbl.first ||| 1#32 <<< (32 - 1 - prio) }
  else { tbl with second := tbl.second ||| 1#32 <<< (32 - 1 - (prio - 32)) }

def remove (tbl : PrioPair) (prio : Nat) : PrioPair :=
  if prio < 32 then { tbl with first := tbl.first &&& ~~~(1#32 <<< (32 - 1 - prio)) }
  else { tbl with second := tbl.second &&& ~~~(1#32 <<< (32 - 1 - (prio - 32))) }

def getHighest (tbl : PrioPair) : Nat :=
  if tbl.first = 0#32 then (tbl.second.clz.toNat % 2 ^ 8 + 32) % 2 ^ 8
  else tbl.first.clz.toNat % 2 ^ 8

end PrioPair

/-! ## A table -/

namespace PrioTbl

def insert (tbl : List (BitVec 32)) (prio : Nat) : List (BitVec 32) :=
  tbl.modify (prio / 32) fun word => word ||| 1#32 <<< (32 - 1 - (prio &&& 31))

def remove (tbl : List (BitVec 32)) (prio : Nat) : List (BitVec 32) :=
  tbl.modify (prio / 32) fun word => word &&& ~~~(1#32 <<< (32 - 1 - (prio &&& 31)))

/-- The search from a word on. Behind the last word there is no result: the loop would read
    past the table. -/
def getHighestFrom (prio : Nat) : List (BitVec 32) → Option Nat
  | [] => none
  | word :: rest =>
      if word = 0#32 then getHighestFrom ((prio + 32) % 2 ^ 8) rest
      else some ((prio + word.clz.toNat % 2 ^ 8) % 2 ^ 8)

def getHighest (tbl : List (BitVec 32)) : Option Nat := getHighestFrom 0 tbl

/-- `OS_PrioInit`, for `OS_PRIO_TBL_SIZE` words. -/
def init (size : Nat) : List (BitVec 32) := List.replicate size 0#32

end PrioTbl

/-! ## Sequences of calls -/

inductive PrioCall where
  | insert (prio : Nat)
  | remove (prio : Nat)
  deriving Repr, DecidableEq

namespace PrioCall

def prio : PrioCall → Nat
  | .insert prio => prio
  | .remove prio => prio

def onWord (word : BitVec 32) : PrioCall → BitVec 32
  | .insert prio => osPrioInsert word prio
  | .remove prio => osPrioRemove word prio

def onPair (tbl : PrioPair) : PrioCall → PrioPair
  | .insert prio => tbl.insert prio
  | .remove prio => tbl.remove prio

def onTbl (tbl : List (BitVec 32)) : PrioCall → List (BitVec 32)
  | .insert prio => PrioTbl.insert tbl prio
  | .remove prio => PrioTbl.remove tbl prio

/-- What a call means for the set of priorities with a ready task. -/
def onSet (ready : Set Nat) : PrioCall → Set Nat
  | .insert prio => Insert.insert prio ready
  | .remove prio => ready \ {prio}

variable {tbl : List (BitVec 32)} {call : PrioCall} {calls : List PrioCall} {size : Nat}

def members (tbl : List (BitVec 32)) : Set Nat := {prio | Bits.member tbl prio = true}

theorem and_31 (prio : Nat) : prio &&& 31 = prio % 32 := by
  simpa using Nat.and_two_pow_sub_one_eq_mod prio 5

theorem onTbl_length (tbl : List (BitVec 32)) (call : PrioCall) :
    (call.onTbl tbl).length = tbl.length := by
  cases call <;> simp [onTbl, PrioTbl.insert, PrioTbl.remove]

theorem onTbl_members (inside : call.prio < 32 * tbl.length) :
    members (call.onTbl tbl) = call.onSet (members tbl) := by
  have same : ∀ prio prio' : Nat, prio' / 32 = prio / 32 →
      (prio' % 32 = prio % 32 ↔ prio' = prio) := by omega
  have bits : ∀ prio : Nat, prio % 32 < 32 := fun prio => Nat.mod_lt prio (by omega)
  ext prio'
  cases call with
  | insert prio =>
      have inside : prio < 32 * tbl.length := inside
      simp only [members, onTbl, onSet, PrioTbl.insert, and_31, Set.mem_ofPred_eq,
        Set.mem_insert_iff, Bits.member_modify inside]
      have set := Bits.getMsbD_set (w := tbl.getD (prio / 32) 0#32) (bits prio) (prio' % 32)
      simp only [Bits.bit] at set
      split
      · rename_i word
        simp only [set, Bits.member, word, Bool.or_eq_true, decide_eq_true_eq,
          same prio prio' word, or_comm]
      · rename_i word
        have other : prio' ≠ prio := fun equal => word (equal ▸ rfl)
        simp [other]
  | remove prio =>
      have inside : prio < 32 * tbl.length := inside
      simp only [members, onTbl, onSet, PrioTbl.remove, and_31, Set.mem_ofPred_eq,
        Set.mem_sdiff, Set.mem_singleton_iff, Bits.member_modify inside]
      have clear := Bits.getMsbD_clear (w := tbl.getD (prio / 32) 0#32) (bits prio) (prio' % 32)
      simp only [Bits.bit] at clear
      split
      · rename_i word
        simp only [clear, Bits.member, word, Bool.and_eq_true, Bool.not_eq_true',
          decide_eq_false_iff_not, same prio prio' word]
      · rename_i word
        have other : prio' ≠ prio := fun equal => word (equal ▸ rfl)
        simp [other]

theorem getHighestFrom_eq (tbl : List (BitVec 32)) (offset : Nat)
    (few : offset + 32 * tbl.length ≤ 2 ^ 8) :
    PrioTbl.getHighestFrom offset tbl = (Bits.first tbl).map (offset + ·) := by
  induction tbl generalizing offset with
  | nil => rfl
  | cons word rest ih =>
      simp only [List.length_cons] at few
      simp only [PrioTbl.getHighestFrom, Bits.first]
      split
      · by_cases last : rest = []
        · simp [last, PrioTbl.getHighestFrom, Bits.first]
        · have more := List.length_pos_iff.mpr last
          have small : (offset + 32) % 2 ^ 8 = offset + 32 := Nat.mod_eq_of_lt (by omega)
          simp only [small, ih (offset + 32) (by omega), Option.map_map]
          congr 1
          funext prio
          exact Nat.add_assoc offset 32 prio
      · rename_i filled
        have inside := Bits.clz_lt filled
        simp only [Option.map_some, Option.some.injEq]
        omega

theorem onTbl_word (word : BitVec 32) (inside : call.prio < 32) :
    call.onTbl [word] = [call.onWord word] := by
  cases call with
  | insert prio =>
      have inside : prio < 32 := inside
      simp [onTbl, onWord, PrioTbl.insert, osPrioInsert, and_31, Nat.div_eq_of_lt inside,
        Nat.mod_eq_of_lt inside]
  | remove prio =>
      have inside : prio < 32 := inside
      simp [onTbl, onWord, PrioTbl.remove, osPrioRemove, and_31, Nat.div_eq_of_lt inside,
        Nat.mod_eq_of_lt inside]

def words (pair : PrioPair) : List (BitVec 32) := [pair.first, pair.second]

theorem onTbl_pair (pair : PrioPair) (inside : call.prio < 64) :
    call.onTbl (words pair) = words (call.onPair pair) := by
  have low : ∀ prio < 32, prio / 32 = 0 ∧ prio % 32 = prio := by omega
  have high : ∀ prio, ¬ prio < 32 → prio < 64 → prio / 32 = 1 ∧ prio % 32 = prio - 32 := by omega
  cases call with
  | insert prio =>
      have inside : prio < 64 := inside
      by_cases less : prio < 32
      · simp [onTbl, onPair, PrioTbl.insert, PrioPair.insert, words, and_31, less, low prio less]
      · simp [onTbl, onPair, PrioTbl.insert, PrioPair.insert, words, and_31, less,
          high prio less inside]
  | remove prio =>
      have inside : prio < 64 := inside
      by_cases less : prio < 32
      · simp [onTbl, onPair, PrioTbl.remove, PrioPair.remove, words, and_31, less, low prio less]
      · simp [onTbl, onPair, PrioTbl.remove, PrioPair.remove, words, and_31, less,
          high prio less inside]

def readySet (calls : List PrioCall) : Set Nat := calls.foldl onSet ∅

theorem members_init (size : Nat) : members (PrioTbl.init size) = ∅ := by
  ext prio
  have zero : (PrioTbl.init size).getD (prio / 32) 0#32 = 0#32 := by
    simp only [PrioTbl.init, List.getD_eq_getElem?_getD, List.getElem?_replicate]
    split <;> rfl
  simp only [members, Bits.member, zero, BitVec.getMsbD_zero, Set.mem_ofPred_eq]
  simp

theorem foldl_onTbl (tbl : List (BitVec 32)) (calls : List PrioCall)
    (inside : ∀ call ∈ calls, call.prio < 32 * tbl.length) :
    (calls.foldl onTbl tbl).length = tbl.length ∧
      members (calls.foldl onTbl tbl) = calls.foldl onSet (members tbl) := by
  induction calls generalizing tbl with
  | nil => exact ⟨rfl, rfl⟩
  | cons call calls ih =>
      obtain ⟨here, rest⟩ := List.forall_mem_cons.mp inside
      have rest' : ∀ c ∈ calls, c.prio < 32 * (call.onTbl tbl).length := by
        simpa only [onTbl_length] using rest
      obtain ⟨length, set⟩ := ih (call.onTbl tbl) rest'
      exact ⟨length.trans (onTbl_length tbl call), by
        simpa only [List.foldl_cons, onTbl_members here] using set⟩

/-- After any calls for priorities of the table the search finds the least one that has been
    inserted and not removed since, and there is none if it runs past the table. -/
theorem table_getHighest (fits : size ≤ 8) (inside : ∀ call ∈ calls, call.prio < 32 * size) :
    (∀ prio, PrioTbl.getHighest (calls.foldl onTbl (PrioTbl.init size)) = some prio ↔
      IsLeast (readySet calls) prio) ∧
    (PrioTbl.getHighest (calls.foldl onTbl (PrioTbl.init size)) = none ↔ readySet calls = ∅) := by
  have start : (PrioTbl.init size).length = size := by simp [PrioTbl.init]
  obtain ⟨length, set⟩ := foldl_onTbl (PrioTbl.init size) calls
    (by simpa only [start] using inside)
  simp only [members_init] at set
  have search := getHighestFrom_eq (calls.foldl onTbl (PrioTbl.init size)) 0
    (by simp only [length, start]; omega)
  simp only [Nat.zero_add, Option.map_id'] at search
  have none' : PrioTbl.getHighest (calls.foldl onTbl (PrioTbl.init size)) = none ↔
      readySet calls = ∅ := by
    simp only [PrioTbl.getHighest, search, Bits.first_eq_none (by omega : 0 < 32), readySet, ← set]
    simp [members, Set.eq_empty_iff_forall_notMem]
  refine ⟨fun prio => ?_, none'⟩
  constructor
  · intro found
    have least : IsLeast (members _) prio :=
      Bits.first_isLeast (by omega) (search.symm.trans found)
    simpa only [set, readySet] using least
  · intro least
    rcases found : PrioTbl.getHighest (calls.foldl onTbl (PrioTbl.init size)) with _ | prio'
    · simp only [none'.mp found] at least
      exact absurd least.1 (Set.notMem_empty prio)
    · have least' : IsLeast (members _) prio' :=
        Bits.first_isLeast (by omega) (search.symm.trans found)
      simp only [set] at least'
      rw [least.unique least']

theorem foldl_onTbl_word (word : BitVec 32) (inside : ∀ call ∈ calls, call.prio < 32) :
    calls.foldl onTbl [word] = [calls.foldl onWord word] := by
  induction calls generalizing word with
  | nil => rfl
  | cons call calls ih =>
      obtain ⟨here, rest⟩ := List.forall_mem_cons.mp inside
      simpa only [List.foldl_cons, onTbl_word word here] using ih (call.onWord word) rest

theorem foldl_onTbl_pair (pair : PrioPair) (inside : ∀ call ∈ calls, call.prio < 64) :
    calls.foldl onTbl (words pair) = words (calls.foldl onPair pair) := by
  induction calls generalizing pair with
  | nil => rfl
  | cons call calls ih =>
      obtain ⟨here, rest⟩ := List.forall_mem_cons.mp inside
      simpa only [List.foldl_cons, onTbl_pair pair here] using ih (call.onPair pair) rest

/-- In one word, unless it is empty, the leading zeros lead to the least priority. -/
theorem word_getHighest (inside : ∀ call ∈ calls, call.prio < 32)
    (some' : (readySet calls).Nonempty) :
    IsLeast (readySet calls) (osPrioGetHighest (calls.foldl onWord 0#32)) := by
  obtain ⟨finds, empty⟩ := table_getHighest (by omega : 1 ≤ 8) inside
  have same := foldl_onTbl_word 0#32 inside
  have start : PrioTbl.init 1 = [0#32] := rfl
  simp only [start, same, PrioTbl.getHighest, PrioTbl.getHighestFrom] at finds empty
  split at finds
  · rename_i zero
    simp only [zero, if_true, true_iff] at empty
    simp [empty] at some'
  · apply (finds _).mp
    simp [osPrioGetHighest]

theorem pair_getHighest (inside : ∀ call ∈ calls, call.prio < 64)
    (some' : (readySet calls).Nonempty) :
    IsLeast (readySet calls) (calls.foldl onPair ⟨0#32, 0#32⟩).getHighest := by
  obtain ⟨finds, empty⟩ := table_getHighest (by omega : 2 ≤ 8) inside
  have same := foldl_onTbl_pair ⟨0#32, 0#32⟩ inside
  have start : PrioTbl.init 2 = words ⟨0#32, 0#32⟩ := rfl
  simp only [start, same] at finds empty
  simp only [words, PrioTbl.getHighest, PrioTbl.getHighestFrom] at finds empty
  split at finds
  · rename_i first
    split at finds
    · rename_i second
      simp only [first, second, if_true, true_iff] at empty
      simp [empty] at some'
    · apply (finds _).mp
      simp [PrioPair.getHighest, first, Nat.add_comm]
  · rename_i first
    apply (finds _).mp
    simp [PrioPair.getHighest, first]

/-- Whichever version `OS_CFG_PRIO_MAX` selects, after any calls it returns the least priority
    that is ready. -/
theorem versions_isLeast (fits : size ≤ 8) (inside : ∀ call ∈ calls, call.prio < 32 * size)
    (some' : (readySet calls).Nonempty) :
    (∃ prio, PrioTbl.getHighest (calls.foldl onTbl (PrioTbl.init size)) = some prio ∧
      IsLeast (readySet calls) prio) ∧
    (size ≤ 2 → IsLeast (readySet calls) (calls.foldl onPair ⟨0#32, 0#32⟩).getHighest) ∧
    (size ≤ 1 → IsLeast (readySet calls) (osPrioGetHighest (calls.foldl onWord 0#32))) := by
  refine ⟨?_, ?_, ?_⟩
  · obtain ⟨finds, empty⟩ := table_getHighest fits inside
    rcases found : PrioTbl.getHighest (calls.foldl onTbl (PrioTbl.init size)) with _ | prio
    · simp [empty.mp found] at some'
    · exact ⟨prio, rfl, (finds prio).mp found⟩
  · intro two
    exact pair_getHighest (fun call member => by have := inside call member; omega) some'
  · intro one
    exact word_getHighest (fun call member => by have := inside call member; omega) some'

/-- Two priorities of one word become ready, and the more urgent one ceases to be. -/
def fewPrioCalls (word : Nat) : List PrioCall :=
  [.insert (32 * word + 9), .insert (32 * word + 4), .remove (32 * word + 4)]

theorem readySet_few (word : Nat) : (readySet (fewPrioCalls word)).Nonempty :=
  ⟨32 * word + 9, by simp [readySet, fewPrioCalls, onSet]⟩

theorem versions_isLeast_few :
    IsLeast (readySet (fewPrioCalls 0)) (osPrioGetHighest ((fewPrioCalls 0).foldl onWord 0#32)) ∧
      IsLeast (readySet (fewPrioCalls 1)) ((fewPrioCalls 1).foldl onPair ⟨0#32, 0#32⟩).getHighest ∧
      ∃ prio, PrioTbl.getHighest ((fewPrioCalls 7).foldl onTbl (PrioTbl.init 8)) = some prio ∧
        IsLeast (readySet (fewPrioCalls 7)) prio :=
  ⟨(versions_isLeast (by omega : 1 ≤ 8) (by decide) (readySet_few 0)).2.2 le_rfl,
    (versions_isLeast (by omega : 2 ≤ 8) (by decide) (readySet_few 1)).2.1 le_rfl,
    (versions_isLeast (by omega : 8 ≤ 8) (by decide) (readySet_few 7)).1⟩

end PrioCall

end ExploreF407.Kernel
