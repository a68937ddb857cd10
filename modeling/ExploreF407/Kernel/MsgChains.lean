import ExploreF407.Kernel.MsgPool

/-! # The free list beside the blocks of a queue

Each function of `os_msg.c` takes blocks from one end of a chain to an end of
another. `Beside` says what the pool and one queue look like in between, and
there is one lemma for each function.
-/

namespace ExploreF407.Kernel.Pool

open Linked

variable {α : Type*} {m : Memory α} {q : OsMsgQ} {size p : Nat} {free blocks : List Nat}

/-- The queue holds these blocks, the oldest message first. -/
structure Holds (m : Memory α) (q : OsMsgQ) (blocks : List Nat) : Prop where
  linked : Points m.link q.outPtr blocks
  inPtr : q.inPtr = blocks.getLast?
  nbrEntries : q.nbrEntries = blocks.length
  nbrEntriesMax : blocks.length ≤ q.nbrEntriesMax ∧ q.nbrEntriesMax ≤ q.nbrEntriesSize

/-- The pool of `size` blocks, with the blocks `free` in its list, beside a queue. -/
structure Beside (size : Nat) (m : Memory α) (q : OsMsgQ) (free blocks : List Nat) : Prop where
  linked : Points m.link m.pool.nextPtr free
  held : Holds m q blocks
  apart : ∀ b ∈ free, b ∉ blocks
  total : free.length + blocks.length ≤ size
  nbrFree : m.pool.nbrFree = free.length
  nbrUsed : m.pool.nbrUsed + free.length = size
  nbrUsedMax : m.pool.nbrUsed ≤ m.pool.nbrUsedMax

def PostOrder.place {β : Type*} (opt : PostOrder) (x : β) (xs : List β) : List β :=
  match opt with
  | .fifo => xs ++ [x]
  | .lifo => x :: xs

theorem PostOrder.place_perm {β : Type*} (opt : PostOrder) (x : β) (xs : List β) :
    (opt.place x xs).Perm (x :: xs) := by
  cases opt with
  | fifo => exact List.perm_append_singleton x xs
  | lifo => exact List.Perm.refl _

@[simp] theorem PostOrder.length_place {β : Type*} (opt : PostOrder) (x : β) (xs : List β) :
    (opt.place x xs).length = xs.length + 1 := by
  simpa using (opt.place_perm x xs).length_eq

theorem PostOrder.map_place {β γ : Type*} (opt : PostOrder) (f : β → γ) (x : β) (xs : List β) :
    (opt.place x xs).map f = opt.place (f x) (xs.map f) := by
  cases opt with
  | fifo => simp [PostOrder.place]
  | lifo => rfl

theorem Holds.frame {m' : Memory α} (held : Holds m q blocks)
    (same : ∀ b ∈ blocks, m'.link b = m.link b) : Holds m' q blocks :=
  { held with linked := held.linked.frame same }

theorem holds_osMsgQInit (m : Memory α) (limit : Nat) : Holds m (osMsgQInit limit) [] where
  linked := rfl
  inPtr := rfl
  nbrEntries := rfl
  nbrEntriesMax := ⟨le_rfl, Nat.zero_le limit⟩

/-! ## Posting -/

theorem takeBlock_spec (fits : size < 2 ^ 16) (beside : Beside size m q (p :: free) blocks) :
    ∃ m', takeBlock m = some (m', p) ∧ m'.msg = m.msg ∧ m'.pool.nextPtr = free.head? ∧
      m'.pool.nbrFree = free.length ∧ m'.pool.nbrUsed + free.length = size ∧
      m'.pool.nbrUsedMax = max m.pool.nbrUsedMax m'.pool.nbrUsed := by
  have used := beside.nbrUsed
  have left := beside.nbrFree
  simp only [List.length_cons] at used left
  have more : qtyAdd m.pool.nbrUsed 1 = m.pool.nbrUsed + 1 := qtyAdd_eq (by omega)
  have less : qtySub m.pool.nbrFree 1 = m.pool.nbrFree - 1 := qtySub_eq (by omega) (by omega)
  refine ⟨_, congrArg (Option.map _) beside.linked.1, rfl, ?_, ?_, ?_, ?_⟩
  · exact beside.linked.2.head
  · simp only [Memory.pool_setPool, less]
    omega
  · simp only [Memory.pool_setPool, more]
    omega
  · simp only [Memory.pool_setPool]
    grind

theorem linkBlock_spec (fits : blocks.length + 1 < 2 ^ 16) (held : Holds m q blocks)
    (fresh : p ∉ blocks) (opt : PostOrder) :
    ∃ m' q', linkBlock m q p opt = some (m', q') ∧ m'.pool = m.pool ∧
      Points m'.link q'.outPtr (opt.place p blocks) ∧
      q'.inPtr = (opt.place p blocks).getLast? ∧ q'.nbrEntries = blocks.length + 1 ∧
      q'.nbrEntriesSize = q.nbrEntriesSize ∧ q'.nbrEntriesMax = q.nbrEntriesMax ∧
      (∀ b, b ∉ p :: blocks → m'.link b = m.link b) ∧
      ∀ b, (m'.msg b).body = (m.msg b).body := by
  have count := held.nbrEntries
  have more : qtyAdd q.nbrEntries 1 = blocks.length + 1 := by
    simpa only [count] using qtyAdd_eq fits
  rcases List.eq_nil_or_concat blocks with rfl | ⟨front, last, rfl⟩
  · have empty : q.nbrEntries = 0 := count
    refine ⟨m.setNext p none, { q with inPtr := some p, outPtr := some p, nbrEntries := 1 },
      by simp [linkBlock, empty], rfl, ?_, ?_, rfl, rfl, rfl, ?_, ?_⟩
    · cases opt <;> simp [PostOrder.place, Points]
    · cases opt <;> rfl
    · intro b other
      simp only [List.mem_singleton] at other
      simp [other]
    · intro b
      simp
  · simp only [List.concat_eq_append] at *
    have filled : q.nbrEntries ≠ 0 := by
      simp [count]
    cases opt with
    | fifo =>
        have ends : q.inPtr = some last := by simpa using held.inPtr
        refine ⟨(m.setNext last (some p)).setNext p none,
          { q with inPtr := some p, nbrEntries := qtyAdd q.nbrEntries 1 },
          by simp [linkBlock, filled, ends], rfl, ?_, ?_, more, rfl, rfl, ?_, ?_⟩
        · -- the new block is a chain of its own before the last one is led on to it
          have alone : Points (Function.update m.link p none) (some p) [p] := by
            simp [Points]
          have apart : ∀ b ∈ front ++ [last], b ∉ [p] := by
            intro b member same
            exact fresh (List.mem_singleton.mp same ▸ member)
          have joined := Points.join (held.linked.elsewhere fresh) alone apart
          have other : p ≠ last := by
            rintro rfl
            simp at fresh
          simpa [PostOrder.place, Function.update_comm other] using joined
        · simp [PostOrder.place]
        · intro b other
          simp only [List.mem_cons, List.mem_append, List.not_mem_nil, or_false, not_or] at other
          obtain ⟨notNew, -, notLast⟩ := other
          simp [notNew, notLast]
        · intro b
          simp
    | lifo =>
        refine ⟨m.setNext p q.outPtr,
          { q with outPtr := some p, nbrEntries := qtyAdd q.nbrEntries 1 },
          by simp [linkBlock, filled], rfl, ?_, ?_, more, rfl, rfl, ?_, ?_⟩
        · simpa [PostOrder.place] using held.linked.push fresh
        · simp [PostOrder.place, held.inPtr, List.getLast?_cons]
        · intro b other
          have notNew : b ≠ p := fun same => other (same ▸ List.mem_cons_self)
          simp [notNew]
        · intro b
          simp

theorem osMsgQPut_full (m : Memory α) (held : Holds m q blocks) (body : Message α)
    (opt : PostOrder) (full : q.nbrEntriesSize ≤ blocks.length) :
    osMsgQPut m q body opt = some (.error .qMax) := by
  simp [osMsgQPut, held.nbrEntries, full]

theorem osMsgQPut_dry (beside : Beside size m q [] blocks) (body : Message α) (opt : PostOrder)
    (room : blocks.length < q.nbrEntriesSize) :
    osMsgQPut m q body opt = some (.error .msgPoolEmpty) := by
  have none : m.pool.nbrFree = 0 := beside.nbrFree
  have more : ¬ q.nbrEntriesSize ≤ q.nbrEntries := by
    simpa [beside.held.nbrEntries] using room
  simp [osMsgQPut, none, more]

theorem osMsgQPut_spec (fits : size < 2 ^ 16) (beside : Beside size m q (p :: free) blocks)
    (body : Message α) (opt : PostOrder) (room : blocks.length < q.nbrEntriesSize) :
    ∃ m' q', osMsgQPut m q body opt = some (.ok (m', q')) ∧
      Beside size m' q' free (opt.place p blocks) ∧ q'.nbrEntriesSize = q.nbrEntriesSize ∧
      m'.pool.nbrUsedMax = max m.pool.nbrUsedMax m'.pool.nbrUsed ∧
      (∀ b, b ∉ p :: blocks → m'.link b = m.link b) ∧
      ∀ b, (m'.msg b).body = if b = p then body else (m.msg b).body := by
  obtain ⟨notIn, apart⟩ := List.forall_mem_cons.mp beside.apart
  have total := beside.total
  have few := beside.nbrFree
  simp only [List.length_cons] at total few
  obtain ⟨m₁, taken, same, first, left, used, usedMax⟩ := takeBlock_spec fits beside
  have link₁ : m₁.link = m.link := funext fun b => congrArg OsMsg.nextPtr (congrFun same b)
  have held₁ : Holds m₁ q blocks := beside.held.frame fun b _ => congrFun link₁ b
  obtain ⟨m₂, q₂, linked, pool, chain, ends, count, limit, peak, frame, bodies⟩ :=
    linkBlock_spec (by omega) held₁ notIn opt
  have more : ¬ q.nbrEntriesSize ≤ q.nbrEntries := by
    simpa [beside.held.nbrEntries] using room
  have free' : m.pool.nbrFree ≠ 0 := by omega
  refine ⟨m₂.deposit p body, q₂.raiseMax, ?_, ?_, limit, ?_, ?_, ?_⟩
  · simp [osMsgQPut, more, free', taken, linked]
  · have notFree : p ∉ free := (List.nodup_cons.mp beside.linked.nodup).1
    refine { linked := ?_, held := ?_, apart := ?_, total := ?_, nbrFree := ?_, nbrUsed := ?_,
             nbrUsedMax := ?_ }
    · simp only [Memory.link_deposit, Memory.pool_deposit, pool, first, ← beside.linked.2.head]
      apply beside.linked.2.frame
      intro b member
      have other : b ∉ p :: blocks := by
        intro taken'
        rcases List.mem_cons.mp taken' with rfl | inside
        · exact notFree member
        · exact apart b member inside
      simp only [frame b other, link₁]
    · refine { linked := ?_, inPtr := ends, nbrEntries := ?_, nbrEntriesMax := ?_ }
      · simp only [Memory.link_deposit]
        exact chain
      · simp only [PostOrder.length_place]
        exact count
      · have bounds := beside.held.nbrEntriesMax
        simp only [OsMsgQ.raiseMax, PostOrder.length_place, count, peak, limit]
        split <;> omega
    · intro b member inside
      rcases List.mem_cons.mp ((opt.place_perm p blocks).mem_iff.mp inside) with rfl | inside
      · exact notFree member
      · exact apart b member inside
    · simp only [PostOrder.length_place]
      omega
    · simpa only [Memory.pool_deposit, pool] using left
    · simpa only [Memory.pool_deposit, pool] using used
    · simp only [Memory.pool_deposit, pool, usedMax]
      exact le_max_right _ _
  · simpa only [Memory.pool_deposit, pool] using usedMax
  · intro b other
    simp only [Memory.link_deposit, frame b other, link₁]
  · intro b
    simp only [Memory.body_deposit, bodies, same]

/-! ## Taking messages out -/

theorem osMsgQGet_empty (m : Memory α) (held : Holds m q []) :
    osMsgQGet m q = some (m, q, none) := by
  have empty : q.nbrEntries = 0 := held.nbrEntries
  simp [osMsgQGet, empty]

theorem osMsgQGet_spec (fits : size < 2 ^ 16) (beside : Beside size m q free (p :: blocks)) :
    ∃ m' q', osMsgQGet m q = some (m', q', some (m.msg p).body) ∧
      Beside size m' q' (p :: free) blocks ∧ q'.nbrEntriesSize = q.nbrEntriesSize ∧
      m'.pool.nbrUsedMax = m.pool.nbrUsedMax ∧ (∀ b, b ≠ p → m'.link b = m.link b) ∧
      ∀ b, (m'.msg b).body = (m.msg b).body := by
  have held := beside.held
  have first : q.outPtr = some p := held.linked.1
  have count := held.nbrEntries
  have total := beside.total
  have used := beside.nbrUsed
  have left := beside.nbrFree
  have usedMax := beside.nbrUsedMax
  have bounds := held.nbrEntriesMax
  simp only [List.length_cons] at count total bounds
  have next : (m.msg p).nextPtr = blocks.head? := held.linked.2.head
  have notFree : p ∉ free := fun member => beside.apart p member List.mem_cons_self
  have notIn : p ∉ blocks := (List.nodup_cons.mp held.linked.nodup).1
  have more : qtyAdd m.pool.nbrFree 1 = m.pool.nbrFree + 1 := qtyAdd_eq (by omega)
  have less : qtySub m.pool.nbrUsed 1 = m.pool.nbrUsed - 1 := qtySub_eq (by omega) (by omega)
  have fewer : qtySub q.nbrEntries 1 = q.nbrEntries - 1 := qtySub_eq (by omega) (by omega)
  have filled : q.nbrEntries ≠ 0 := by omega
  refine ⟨(m.setNext p m.pool.nextPtr).setPool
      { m.pool with
        nextPtr := some p
        nbrFree := qtyAdd m.pool.nbrFree 1
        nbrUsed := qtySub m.pool.nbrUsed 1 },
    if blocks.head? = none then
      { q with outPtr := blocks.head?, inPtr := none, nbrEntries := 0 }
    else { q with outPtr := blocks.head?, nbrEntries := qtySub q.nbrEntries 1 },
    by simp [osMsgQGet, filled, first, next], ?_, ?_, rfl, ?_, ?_⟩
  · refine { linked := ?_, held := ?_, apart := ?_, total := ?_, nbrFree := ?_, nbrUsed := ?_,
             nbrUsedMax := ?_ }
    · simpa using beside.linked.push notFree
    · have rest : Points (Function.update m.link p m.pool.nextPtr) blocks.head? blocks := by
        have behind := held.linked.2.elsewhere (x := m.pool.nextPtr) notIn
        simpa only [Memory.link, next] using behind
      cases blocks with
      | nil =>
          exact
            { linked := rfl
              inPtr := rfl
              nbrEntries := rfl
              nbrEntriesMax := ⟨Nat.zero_le _, bounds.2⟩ }
      | cons b blocks =>
          refine { linked := ?_, inPtr := ?_, nbrEntries := ?_, nbrEntriesMax := ?_ }
          · simpa using rest
          · simpa using held.inPtr
          · simp only [List.length_cons] at count ⊢
            simp only [List.head?_cons, reduceCtorEq, if_false, fewer]
            omega
          · simp only [List.head?_cons, reduceCtorEq, if_false, List.length_cons] at bounds ⊢
            omega
    · intro b member inside
      rcases List.mem_cons.mp member with rfl | member
      · exact notIn inside
      · exact beside.apart b member (List.mem_cons_of_mem p inside)
    · simp only [List.length_cons]
      omega
    · simp only [Memory.pool_setPool, List.length_cons, more]
      omega
    · simp only [Memory.pool_setPool, List.length_cons, less]
      omega
    · simp only [Memory.pool_setPool, less]
      omega
  · split <;> rfl
  · intro b other
    simp [other]
  · intro b
    simp

/-- All blocks of the queue go to the front of the free list, the oldest first. -/
theorem osMsgQFreeAll_spec (fits : size < 2 ^ 16) (beside : Beside size m q free blocks) :
    ∃ m' q', osMsgQFreeAll m q = some (m', q', blocks.length) ∧
      Beside size m' q' (blocks ++ free) [] ∧ q'.nbrEntriesSize = q.nbrEntriesSize ∧
      m'.pool.nbrUsedMax = m.pool.nbrUsedMax ∧ (∀ b, b ∉ blocks → m'.link b = m.link b) ∧
      ∀ b, (m'.msg b).body = (m.msg b).body := by
  have held := beside.held
  have count := held.nbrEntries
  have total := beside.total
  have used := beside.nbrUsed
  have left := beside.nbrFree
  have usedMax := beside.nbrUsedMax
  rcases List.eq_nil_or_concat blocks with rfl | ⟨front, last, rfl⟩
  · have empty : ¬ 0 < q.nbrEntries := by
      simp [count]
    exact ⟨m, q, by simp [osMsgQFreeAll, empty], beside, rfl, rfl, fun _ _ => rfl, fun _ => rfl⟩
  · simp only [List.concat_eq_append] at *
    have ends : q.inPtr = some last := by simpa using held.inPtr
    have filled : 0 < q.nbrEntries := by simp [count]
    have more : qtyAdd m.pool.nbrFree q.nbrEntries = m.pool.nbrFree + q.nbrEntries :=
      qtyAdd_eq (by omega)
    have less : qtySub m.pool.nbrUsed q.nbrEntries = m.pool.nbrUsed - q.nbrEntries :=
      qtySub_eq (by omega) (by omega)
    refine ⟨(m.setNext last m.pool.nextPtr).setPool
        { m.pool with
          nextPtr := q.outPtr
          nbrUsed := qtySub m.pool.nbrUsed q.nbrEntries
          nbrFree := qtyAdd m.pool.nbrFree q.nbrEntries },
      { q with nbrEntries := 0, nbrEntriesMax := 0, inPtr := none, outPtr := none },
      by simp only [osMsgQFreeAll, filled, if_true, ends, Option.map_some, ← count]; rfl,
      ?_, rfl, rfl, ?_, ?_⟩
    · refine { linked := ?_, held := ?_, apart := ?_, total := ?_, nbrFree := ?_, nbrUsed := ?_,
               nbrUsedMax := ?_ }
      · have apart : ∀ b ∈ front ++ [last], b ∉ free := by
          intro b inside member
          exact beside.apart b member inside
        simpa using held.linked.join beside.linked apart
      · exact
          { linked := rfl
            inPtr := rfl
            nbrEntries := rfl
            nbrEntriesMax := ⟨le_rfl, Nat.zero_le _⟩ }
      · intro b _
        exact List.not_mem_nil
      · simp only [List.length_append, List.length_nil] at total ⊢
        omega
      · simp only [Memory.pool_setPool, more, List.length_append] at count ⊢
        omega
      · simp only [Memory.pool_setPool, less, List.length_append] at count total ⊢
        omega
      · simp only [Memory.pool_setPool, less]
        omega
    · intro b outside
      have other : b ≠ last := by
        rintro rfl
        exact outside (List.mem_append_right front List.mem_cons_self)
      simp [other]
    · intro b
      simp

end ExploreF407.Kernel.Pool
