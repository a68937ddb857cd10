import ExploreF407.Lib.Machine
import ExploreF407.Lib.Peak
import ExploreF407.Kernel.QueueCalls

/-! # Runs of the message queues

Each call on the blocks replies as the call on the lists, so every sequence of
calls does. What the pool looks like after a run is read off the invariant.
-/

namespace ExploreF407.Kernel.Pool

open Linked Machine

variable {κ α τ : Type*} [DecidableEq κ] [Fintype κ] {size : Nat} {w w' : Queues κ α}
  {chain : Option κ → List Nat} {a : κ → Kernel.OsQ (Message α)} {k : κ} {m m' : Memory α}
  {q' : OsMsgQ} {free blocks : List Nat}

/-! ## Each call -/

theorem listCall_post (body : Message α) (opt : PostOrder) (made : (a k).type = .q) :
    listCall size a (.post k body opt (none : Option τ)) =
      if (a k).msgQ.nbrEntriesSize ≤ (a k).msgQ.nbrEntries then (a, .failed .qMax)
      else if Pool.nbrFree size a = 0 then (a, .failed .msgPoolEmpty)
      else (Function.update a k
        { type := .q
          msgQ :=
            { (a k).msgQ with entries := opt.place body (a k).msgQ.entries } }, .done) := by
  cases opt with
  | fifo =>
      simp only [listCall, Kernel.osQPost, Kernel.osMsgQPut, made, ne_eq, not_true_eq_false,
        if_false]
      split_ifs <;> rfl
  | lifo =>
      simp only [listCall, osQPostFront, made, ne_eq, not_true_eq_false, if_false]
      split_ifs <;> rfl

/-- A call replies as on the lists, and leaves the pool and the queues in order. -/
def Follows (size : Nat) (w : Queues κ α) (a : κ → Kernel.OsQ (Message α)) (c : Call κ α τ) :
    Prop :=
  ∃ w' chain, w.call c = some (w', (listCall size a c).2) ∧ Good size w' chain ∧
    Stands w' chain (listCall size a c).1 ∧
    w'.mem.pool.nbrUsedMax = max w.mem.pool.nbrUsedMax w'.mem.pool.nbrUsed

namespace Good

variable {c : Call κ α τ} {r : Reply α}

theorem stays (good : Good size w chain) (stands : Stands w chain a)
    (here : w.call c = some (w, r)) (there : listCall size a c = (a, r)) : Follows size w a c := by
  refine ⟨w, chain, ?_, good, ?_, ?_⟩
  · simp only [here, there]
  · simpa only [there] using stands
  · exact (max_eq_left good.nbrUsedMax).symm

theorem goes (good : Good size w chain) (stands : Stands w chain a) (k : κ) (obj : OsQ)
    (new : Kernel.OsQ (Message α)) (here : w.call c = some (w.store k m' obj, r))
    (there : listCall size a c = (Function.update a k new, r))
    (after : Beside size m' q' free blocks)
    (same : (free ++ blocks).Perm (chain none ++ chain (some k)))
    (frame : ∀ b, b ∉ chain none → b ∉ chain (some k) →
      m'.link b = w.mem.link b ∧ (m'.msg b).body = (w.mem.msg b).body)
    (usedMax : m'.pool.nbrUsedMax = max w.mem.pool.nbrUsedMax m'.pool.nbrUsed)
    (made : obj.type = .q → obj.msgQ = q') (idle : obj.type ≠ .q → blocks = [])
    (type : new.type = obj.type) (entries : new.msgQ.entries = blocks.map fun b => (m'.msg b).body)
    (limit : obj.type = .q → new.msgQ.nbrEntriesSize = obj.msgQ.nbrEntriesSize) :
    Follows size w a c := by
  refine ⟨w.store k m' obj, rechain chain k free blocks, ?_, ?_, ?_, usedMax⟩
  · simp only [here, there]
  · exact good.change after same (fun b notFree notHere => (frame b notFree notHere).1) made idle
  · simp only [there]
    exact good.stands stands (fun b notFree notHere => (frame b notFree notHere).2) type entries limit

theorem create_follows (good : Good size w chain) (stands : Stands w chain a) (k : κ)
    (maxQty : Nat) : Follows size w a (.create k maxQty : Call κ α τ) := by
  have typed := stands.type k
  by_cases empty : maxQty = 0
  · refine good.stays (r := .failed .qSize) stands ?_ ?_
    · simp [Queues.call, osQCreate, empty]
    · simp [listCall, Kernel.osQCreate, empty]
  · by_cases made : (w.q k).type = .q
    · refine good.stays (r := .failed .objCreated) stands ?_ ?_
      · simp [Queues.call, osQCreate, empty, made]
      · simp [listCall, Kernel.osQCreate, empty, made, typed]
    · have nothing := good.idle k made
      have after : Beside size w.mem (osMsgQInit maxQty) (chain none) [] :=
        { linked := good.linked
          held := holds_osMsgQInit w.mem maxQty
          apart := fun _ _ => List.not_mem_nil
          total := by
            have used := good.nbrUsed
            simp only [List.length_nil]
            omega
          nbrFree := good.nbrFree
          nbrUsed := good.nbrUsed
          nbrUsedMax := good.nbrUsedMax }
      refine good.goes (r := .done) stands k { type := .q, msgQ := osMsgQInit maxQty }
        { type := .q, msgQ := Kernel.osMsgQInit maxQty } ?_ ?_ after ?_ ?_ ?_ (fun _ => rfl) ?_
        rfl rfl fun _ => rfl
      · simp [Queues.call, osQCreate, empty, made]
      · simp [listCall, Kernel.osQCreate, empty, made, typed]
      · simp [nothing]
      · exact fun _ _ _ => ⟨rfl, rfl⟩
      · exact (max_eq_left good.nbrUsedMax).symm
      · exact fun _ => rfl

theorem post_follows (fits : size < 2 ^ 16) (good : Good size w chain) (stands : Stands w chain a)
    (k : κ) (body : Message α) (opt : PostOrder) (head : Option τ) :
    Follows size w a (.post k body opt head) := by
  have typed := stands.type k
  by_cases made : (w.q k).type = .q
  · cases head with
    | some t =>
        refine good.stays (r := .done) stands ?_ ?_
        · simp [Queues.call, osQPost, made, Queues.store]
        · cases opt <;> simp [listCall, Kernel.osQPost, osQPostFront, typed, made]
    | none =>
        have beside := good.beside made
        have limit := stands.size k made
        have count : (a k).msgQ.nbrEntries = (chain (some k)).length := by
          simp [Kernel.OsMsgQ.nbrEntries, stands.entries]
        have list : listCall size a (.post k body opt (none : Option τ)) = _ :=
          listCall_post body opt (typed.trans made)
        simp only [limit, count, good.nbrFree_eq stands] at list
        by_cases full : (w.q k).msgQ.nbrEntriesSize ≤ (chain (some k)).length
        · refine good.stays (r := .failed .qMax) stands ?_ ?_
          · simp [Queues.call, osQPost, made, osMsgQPut_full w.mem beside.held body opt full]
          · simp only [list, if_pos full]
        · have room := Nat.lt_of_not_le full
          simp only [if_neg full] at list
          rcases more : chain none with _ | ⟨p, free⟩
          · simp only [more] at beside list
            refine good.stays (r := .failed .msgPoolEmpty) stands ?_ list
            simp [Queues.call, osQPost, made, osMsgQPut_dry beside body opt room]
          · simp only [more, List.length_cons, Nat.succ_ne_zero, if_false] at beside list
            obtain ⟨m', q', put, after, limit', usedMax, links, bodies⟩ :=
              osMsgQPut_spec fits beside body opt room
            have fresh : p ∉ chain (some k) := beside.apart p List.mem_cons_self
            refine good.goes stands k { w.q k with msgQ := q' } _ ?_ list after ?_ ?_ usedMax
              (fun _ => rfl) ?_ made.symm ?_ ?_
            · simp [Queues.call, osQPost, made, put]
            · rw [more]
              refine (List.Perm.append_left free (opt.place_perm p _)).trans ?_
              exact List.perm_middle
            · intro b notFree notHere
              have other : b ≠ p := fun same => notFree (by simp [more, same])
              refine ⟨links b ?_, by simp [bodies, other]⟩
              simp [other, notHere]
            · exact fun untyped => absurd made untyped
            · simp only [PostOrder.map_place, bodies, if_true, stands.entries k]
              congr 1
              apply List.map_congr_left
              intro b member
              have other : b ≠ p := fun same => fresh (same ▸ member)
              simp [other]
            · exact fun _ => limit'.symm
  · refine good.stays (r := .failed .objType) stands ?_ ?_
    · simp [Queues.call, osQPost, made]
    · cases opt <;> simp [listCall, Kernel.osQPost, osQPostFront, typed, made]

theorem pend_follows (fits : size < 2 ^ 16) (good : Good size w chain) (stands : Stands w chain a)
    (k : κ) (opt : PendOpt) : Follows size w a (.pend k opt : Call κ α τ) := by
  have typed := stands.type k
  by_cases made : (w.q k).type = .q
  · have beside := good.beside made
    rcases more : chain (some k) with _ | ⟨p, blocks⟩
    · have none : (a k).msgQ.entries = [] := by simp [stands.entries, more]
      simp only [more] at beside
      have empty := osMsgQGet_empty w.mem beside.held
      cases opt with
      | nonBlocking =>
          refine good.stays (r := .failed .pendWouldBlock) stands ?_ ?_
          · simp [Queues.call, osQPend, made, empty]
          · simp [listCall, Kernel.osQPend, Kernel.osMsgQGet, none, typed, made]
      | blocking =>
          refine good.stays (r := .blocked) stands ?_ ?_
          · simp [Queues.call, osQPend, made, empty]
          · simp [listCall, Kernel.osQPend, Kernel.osMsgQGet, none, typed, made]
    · have some' : (a k).msgQ.entries =
          (w.mem.msg p).body :: blocks.map fun b => (w.mem.msg b).body := by
        simp [stands.entries, more]
      simp only [more] at beside
      obtain ⟨m', q', get, after, limit', usedMax, links, bodies⟩ := osMsgQGet_spec fits beside
      refine good.goes (r := .granted (w.mem.msg p).body) stands k { w.q k with msgQ := q' }
        { a k with
          msgQ := { (a k).msgQ with entries := blocks.map fun b => (w.mem.msg b).body } }
        ?_ ?_ after ?_ ?_ ?_ (fun _ => rfl) ?_ typed ?_ ?_
      · simp [Queues.call, osQPend, made, get]
      · simp [listCall, Kernel.osQPend, Kernel.osMsgQGet, some', typed, made]
      · simp only [more]
        exact List.perm_middle.symm
      · intro b _ notHere
        have other : b ≠ p := fun same => notHere (by simp [more, same])
        exact ⟨links b other, bodies b⟩
      · have fewer := after.nbrUsed
        have before := good.nbrUsed
        have peak := good.nbrUsedMax
        simp only [List.length_cons] at fewer
        omega
      · exact fun untyped => absurd made untyped
      · simp only [bodies]
      · intro _
        simpa only [limit'] using stands.size k made
  · refine good.stays (r := .failed .objType) stands ?_ ?_
    · simp [Queues.call, osQPend, made]
    · simp [listCall, Kernel.osQPend, typed, made]

theorem flush_follows (fits : size < 2 ^ 16) (good : Good size w chain)
    (stands : Stands w chain a) (k : κ) : Follows size w a (.flush k : Call κ α τ) := by
  have typed := stands.type k
  by_cases made : (w.q k).type = .q
  · obtain ⟨m', q', freed, after, limit', usedMax, links, bodies⟩ :=
      osMsgQFreeAll_spec fits (good.beside made)
    refine good.goes (r := .flushed (chain (some k)).length) stands k { w.q k with msgQ := q' }
      { a k with msgQ := { (a k).msgQ with entries := [] } } ?_ ?_ after ?_ ?_ ?_ (fun _ => rfl) ?_
      typed ?_ ?_
    · simp [Queues.call, osQFlush, made, freed]
    · simp [listCall, osQFlushAll, typed, made, Kernel.OsMsgQ.nbrEntries, stands.entries]
    · simpa using List.perm_append_comm
    · intro b _ notHere
      exact ⟨links b notHere, bodies b⟩
    · have fewer := after.nbrUsed
      have before := good.nbrUsed
      have peak := good.nbrUsedMax
      simp only [List.length_append] at fewer
      omega
    · exact fun untyped => absurd made untyped
    · rfl
    · intro _
      simpa only [limit'] using stands.size k made
  · refine good.stays (r := .failed .objType) stands ?_ ?_
    · simp [Queues.call, osQFlush, made]
    · simp [listCall, osQFlushAll, typed, made]

theorem del_follows (fits : size < 2 ^ 16) (good : Good size w chain) (stands : Stands w chain a)
    (k : κ) (opt : DelOpt) (head : Option τ) : Follows size w a (.del k opt head) := by
  have typed := stands.type k
  by_cases made : (w.q k).type = .q
  · by_cases waits : opt = .noPend ∧ head.isSome
    · obtain ⟨rfl, some'⟩ := waits
      obtain ⟨t, rfl⟩ := Option.isSome_iff_exists.mp some'
      refine good.stays (r := .failed .taskWaiting) stands ?_ ?_
      · simp [Queues.call, osQDel, made]
      · simp [listCall, Kernel.osQDel, typed, made]
    · obtain ⟨m', q', freed, after, -, usedMax, links, bodies⟩ :=
        osMsgQFreeAll_spec fits (good.beside made)
      refine good.goes (r := .done) stands k { type := .none, msgQ := osMsgQInit 0 }
        { type := .none, msgQ := Kernel.osMsgQInit 0 } ?_ ?_ after ?_ ?_ ?_ (by simp) ?_ rfl rfl
        (by simp)
      · cases opt <;> cases head <;> simp_all [Queues.call, osQDel, osQClr]
      · cases opt <;> cases head <;> simp_all [listCall, Kernel.osQDel]
      · simpa using List.perm_append_comm
      · intro b _ notHere
        exact ⟨links b notHere, bodies b⟩
      · have fewer := after.nbrUsed
        have before := good.nbrUsed
        have peak := good.nbrUsedMax
        simp only [List.length_append] at fewer
        omega
      · exact fun _ => rfl
  · refine good.stays (r := .failed .objType) stands ?_ ?_
    · simp [Queues.call, osQDel, made]
    · simp [listCall, Kernel.osQDel, typed, made]

theorem follows (fits : size < 2 ^ 16) (good : Good size w chain) (stands : Stands w chain a)
    (c : Call κ α τ) : Follows size w a c := by
  cases c with
  | create k maxQty => exact good.create_follows stands k maxQty
  | post k body opt head => exact good.post_follows fits stands k body opt head
  | pend k opt => exact good.pend_follows fits stands k opt
  | flush k => exact good.flush_follows fits stands k
  | del k opt head => exact good.del_follows fits stands k opt head

end Good

/-! ## Whole runs -/

theorem osMsgPoolInit_pool {msg : Nat → OsMsg α} (init : osMsgPoolInit msg size = .ok m) :
    m.pool = { nextPtr := some 0, nbrFree := size, nbrUsed := 0, nbrUsedMax := 0 } := by
  simp only [osMsgPoolInit] at init
  split at init
  · cases init
  · cases init
    rfl

omit [Fintype κ] in
theorem good_osMsgPoolInit {msg : Nat → OsMsg α} (init : osMsgPoolInit msg size = .ok m)
    {q : κ → OsQ} (fresh : ∀ k, (q k).type ≠ .q) :
    Good size { mem := m, q := q } (fun e => if e = none then List.range size else []) := by
  simp only [osMsgPoolInit] at init
  split at init
  · cases init
  · rename_i some'
    cases init
    obtain ⟨-, chain⟩ := osMsgPoolInitLoop_points msg 0 (size - 1)
    simp only [Nat.sub_add_cancel (Nat.pos_of_ne_zero some'), ← List.range_eq_range'] at chain
    exact
      { shares := Shares.init List.nodup_range fun b => by simp
        linked := chain
        nbrFree := by simp
        nbrUsed := by simp
        nbrUsedMax := le_rfl
        held := fun k made => absurd made (fresh k)
        idle := fun _ _ => rfl }

def noMessages (q : κ → OsQ) (k : κ) : Kernel.OsQ (Message α) :=
  { type := (q k).type, msgQ := Kernel.osMsgQInit 0 }

omit [DecidableEq κ] [Fintype κ] in
theorem stands_noMessages {q : κ → OsQ} (fresh : ∀ k, (q k).type ≠ .q) :
    Stands { mem := m, q := q } (fun e => if e = none then List.range size else [])
      (noMessages q) where
  type _ := rfl
  entries _ := rfl
  size k made := absurd made (fresh k)

theorem Good.replies (fits : size < 2 ^ 16) (good : Good size w chain) (stands : Stands w chain a)
    (calls : List (Call κ α τ)) :
    ∃ w' a' rs, replies Queues.call w calls = some (w', rs) ∧
      replies (fun a c => some (listCall size a c)) a calls = some (a', rs) := by
  induction calls generalizing w chain a with
  | nil => exact ⟨w, a, [], rfl, rfl⟩
  | cons c calls ih =>
      obtain ⟨w₁, chain₁, called, good₁, stands₁, -⟩ := good.follows fits stands c
      obtain ⟨w₂, a₂, rs, here, there⟩ := ih good₁ stands₁
      exact ⟨w₂, a₂, _ :: rs, replies_cons.mpr ⟨w₁, _, rs, called, here, rfl⟩,
        replies_cons.mpr ⟨_, _, rs, rfl, there, rfl⟩⟩

/-- The queues on their common pool of blocks answer every sequence of calls as lists of
    messages that share `size` places do. No call follows a null pointer. -/
theorem queues_refine_lists (fits : size < 2 ^ 16) {msg : Nat → OsMsg α}
    (init : osMsgPoolInit msg size = .ok m) {q : κ → OsQ} (fresh : ∀ k, (q k).type ≠ .q)
    (calls : List (Call κ α τ)) :
    ∃ w a rs, replies Queues.call { mem := m, q := q } calls = some (w, rs) ∧
      replies (fun a c => some (listCall size a c)) (noMessages q) calls = some (a, rs) :=
  (good_osMsgPoolInit init fresh).replies fits (stands_noMessages fresh) calls

/-- Two blocks, and two queues that have not been created. -/
def twoBlocks : Memory Nat :=
  { msg := osMsgPoolInitLoop (fun _ => emptyMsg none) 0 1
    pool := { nextPtr := some 0, nbrFree := 2, nbrUsed := 0, nbrUsedMax := 0 } }

def twoQueues : Queues Bool Nat :=
  { mem := twoBlocks, q := fun _ => { type := .none, msgQ := osMsgQInit 0 } }

/-- Calls that fill both queues, overdraw the pool and take a message out again. -/
def fewCalls : List (Call Bool Nat Unit) :=
  [.create true 3, .create false 1,
    .post true { msgPtr := some 5, msgSize := 4, msgTS := 0 } .fifo none,
    .post false { msgPtr := some 6, msgSize := 4, msgTS := 1 } .lifo none,
    .post true { msgPtr := some 7, msgSize := 4, msgTS := 2 } .lifo none,
    .pend true .nonBlocking]

theorem queues_refine_lists_few :
    ∃ w a rs, replies Queues.call twoQueues fewCalls = some (w, rs) ∧
      replies (fun a c => some (listCall 2 a c)) (noMessages twoQueues.q) fewCalls =
        some (a, rs) :=
  queues_refine_lists (by decide) (rfl : osMsgPoolInit (fun _ => emptyMsg none) 2 = .ok twoBlocks)
    nofun fewCalls

def Queues.step (w : Queues κ α) (c : Call κ α τ) : Option (Queues κ α) :=
  (w.call c).map Prod.fst

theorem Good.step (fits : size < 2 ^ 16) (good : Good size w chain) (stands : Stands w chain a)
    {c : Call κ α τ} (moved : w.step c = some w') :
    ∃ chain' a', Good size w' chain' ∧ Stands w' chain' a' ∧
      w'.mem.pool.nbrUsedMax = max w.mem.pool.nbrUsedMax w'.mem.pool.nbrUsed := by
  obtain ⟨w₁, chain₁, called, good₁, stands₁, peak⟩ := good.follows fits stands c
  simp only [Queues.step, called, Option.map_some, Option.some.injEq] at moved
  subst moved
  exact ⟨chain₁, _, good₁, stands₁, peak⟩

theorem good_of_run (fits : size < 2 ^ 16) {msg : Nat → OsMsg α}
    (init : osMsgPoolInit msg size = .ok m) {q : κ → OsQ} (fresh : ∀ k, (q k).type ≠ .q)
    {calls : List (Call κ α τ)} (run : Runs Queues.step anyStep { mem := m, q := q } calls w) :
    ∃ chain a, Good size w chain ∧ Stands w chain a := by
  induction run with
  | start => exact ⟨_, _, good_osMsgPoolInit init fresh, stands_noMessages fresh⟩
  | next _ _ moved ih =>
      obtain ⟨chain, a, good, stands⟩ := ih
      obtain ⟨chain', a', good', stands', -⟩ := good.step fits stands moved
      exact ⟨chain', a', good', stands'⟩

/-- After every run each block of the pool is in the free list or in exactly one queue, once,
    and the counters say how many there are. -/
theorem blocks_shared_out (fits : size < 2 ^ 16) {msg : Nat → OsMsg α}
    (init : osMsgPoolInit msg size = .ok m) {q : κ → OsQ} (fresh : ∀ k, (q k).type ≠ .q)
    {calls : List (Call κ α τ)} (run : Runs Queues.step anyStep { mem := m, q := q } calls w) :
    ∃ chain : Option κ → List Nat, Shares (Finset.range size) chain ∧
      Points w.mem.link w.mem.pool.nextPtr (chain none) ∧
      (∀ k, (w.q k).type = .q →
        Points w.mem.link (w.q k).msgQ.outPtr (chain (some k)) ∧
          (w.q k).msgQ.inPtr = (chain (some k)).getLast? ∧
          (w.q k).msgQ.nbrEntries = (chain (some k)).length ∧
          (chain (some k)).length ≤ (w.q k).msgQ.nbrEntriesSize) ∧
      (∀ k, (w.q k).type ≠ .q → chain (some k) = []) ∧
      w.mem.pool.nbrFree = (chain none).length ∧
      w.mem.pool.nbrUsed = ∑ k, (chain (some k)).length ∧
      w.mem.pool.nbrFree + w.mem.pool.nbrUsed = size := by
  obtain ⟨chain, a, good, -⟩ := good_of_run fits init fresh run
  refine ⟨chain, good.shares, good.linked, ?_, good.idle, good.nbrFree, good.nbrUsed_eq, ?_⟩
  · intro k made
    have held := good.held k made
    exact ⟨held.linked, held.inPtr, held.nbrEntries,
      held.nbrEntriesMax.1.trans held.nbrEntriesMax.2⟩
  · have used := good.nbrUsed
    have left := good.nbrFree
    omega

theorem blocks_shared_out_few :
    ∃ w, Runs Queues.step anyStep twoQueues fewCalls w ∧
      ∃ chain : Option Bool → List Nat, Shares (Finset.range 2) chain ∧
        w.mem.pool.nbrUsed = ∑ k, (chain (some k)).length := by
  obtain ⟨w, run, -⟩ := exists_run (P := fun w : Queues Bool Nat => w.mem.pool.nbrUsed = 1)
    (by decide : (execute Queues.step anyStep twoQueues fewCalls).any _ = true)
  obtain ⟨chain, shares, -, -, -, -, used, -⟩ := blocks_shared_out (by decide)
    (rfl : osMsgPoolInit (fun _ => emptyMsg none) 2 = .ok twoBlocks) nofun run
  exact ⟨w, run, chain, shares, used⟩

def usedOnTheWay (s : Queues κ α) (calls : List (Call κ α τ)) : Set Nat :=
  { n | ∃ before v, before <+: calls ∧ Runs Queues.step anyStep s before v ∧
    v.mem.pool.nbrUsed = n }

omit [Fintype κ] in
theorem usedOnTheWay_nil (s : Queues κ α) :
    usedOnTheWay (τ := τ) s [] = {s.mem.pool.nbrUsed} := by
  ext n
  constructor
  · rintro ⟨before, v, initial, part, rfl⟩
    cases List.prefix_nil.mp initial
    have same := part.unique (.start : Runs Queues.step anyStep s [] s)
    exact congrArg (fun x => x.mem.pool.nbrUsed) same
  · rintro rfl
    exact ⟨[], s, List.prefix_rfl, .start, rfl⟩

omit [Fintype κ] in
theorem usedOnTheWay_concat {s u v : Queues κ α} {calls : List (Call κ α τ)} {c : Call κ α τ}
    (run : Runs Queues.step anyStep s calls v) (moved : v.step c = some u) :
    usedOnTheWay s (calls ++ [c]) = insert u.mem.pool.nbrUsed (usedOnTheWay s calls) := by
  ext n
  constructor
  · rintro ⟨before, x, initial, part, rfl⟩
    rcases List.prefix_concat_iff.mp initial with rfl | shorter
    · have same := part.unique (.next run trivial moved)
      exact .inl (congrArg (fun x => x.mem.pool.nbrUsed) same)
    · exact .inr ⟨before, x, shorter, part, rfl⟩
  · rintro (rfl | ⟨before, x, initial, part, rfl⟩)
    · exact ⟨_, u, List.prefix_rfl, .next run trivial moved, rfl⟩
    · exact ⟨before, x, initial.trans (List.prefix_append calls [c]), part, rfl⟩

/-- `NbrUsedMax` is the greatest number of blocks that have been in use at one time. -/
theorem nbrUsedMax_isGreatest (fits : size < 2 ^ 16) {msg : Nat → OsMsg α}
    (init : osMsgPoolInit msg size = .ok m) {q : κ → OsQ} (fresh : ∀ k, (q k).type ≠ .q)
    {calls : List (Call κ α τ)} (run : Runs Queues.step anyStep { mem := m, q := q } calls w) :
    IsGreatest (usedOnTheWay { mem := m, q := q } calls) w.mem.pool.nbrUsedMax := by
  have peak : Peak 0 w.mem.pool.nbrUsedMax (usedOnTheWay { mem := m, q := q } calls) := by
    induction run with
    | start =>
        simp only [usedOnTheWay_nil, osMsgPoolInit_pool init]
        exact { above := fun x same => by simp_all, reached := .inl rfl }
    | @next calls v c u before _ moved ih =>
        obtain ⟨chain, a, good, stands⟩ := good_of_run fits init fresh before
        obtain ⟨-, -, -, -, raised⟩ := good.step fits stands moved
        have more := ih.insert (Nat.zero_le u.mem.pool.nbrUsed)
        simp only [usedOnTheWay_concat before moved, raised]
        grind
  exact peak.isGreatest ⟨[], _, List.nil_prefix, .start, rfl⟩

theorem nbrUsedMax_isGreatest_few :
    ∃ w, Runs Queues.step anyStep twoQueues fewCalls w ∧ w.mem.pool.nbrUsed = 1 ∧
      IsGreatest (usedOnTheWay twoQueues fewCalls) w.mem.pool.nbrUsedMax := by
  obtain ⟨w, run, one⟩ := exists_run (P := fun w : Queues Bool Nat => w.mem.pool.nbrUsed = 1)
    (by decide : (execute Queues.step anyStep twoQueues fewCalls).any _ = true)
  exact ⟨w, run, one, nbrUsedMax_isGreatest (by decide)
    (rfl : osMsgPoolInit (fun _ => emptyMsg none) 2 = .ok twoBlocks) nofun run⟩

end ExploreF407.Kernel.Pool
