import ExploreF407.Lib.Machine

/-! # Who is inside the Ethernet driver

`App_EthTask` from `LWIP_NETIFInit` on, `tcpip_thread` and the `ethrx` task, at the
granularity of the core lock, the HAL lock and the calls of the driver. The stack
calls the driver between `LOCK_TCPIP_CORE` and `UNLOCK_TCPIP_CORE`. `LWIP_NETIFInit`
calls `netif_add` and `netif_set_up` without, and `netif_set_up` sends a gratuitous
ARP when the link is up.
-/

namespace ExploreF407.Eth.DriverLock

open Machine

inductive Thread where
  | app
  | tcpip
  | ethrx
  deriving Repr, DecidableEq

/-- On whose behalf the driver runs. -/
inductive Caller where
  /-- Code between `LOCK_TCPIP_CORE` and `UNLOCK_TCPIP_CORE`. -/
  | stack
  /-- `etharp_gratuitous` under `netif_set_up`. -/
  | gratuitous
  deriving Repr, DecidableEq

inductive Pc where
  | notCreated
  /-- In `netif_add`, before `low_level_init` has created the `ethrx` task. -/
  | netifAdd
  /-- In `low_level_init`, `HAL_ETH_Start` is next. -/
  | start
  /-- In `HAL_ETH_Start`. -/
  | halStart
  /-- Behind `netif_add`, the link test and `netif_set_up` are next. -/
  | setUp
  /-- Outside the stack. -/
  | outside
  /-- Between `LOCK_TCPIP_CORE` and `UNLOCK_TCPIP_CORE`. -/
  | inStack
  /-- In `low_level_output` or `low_level_input`, before or after the HAL call. -/
  | driver (caller : Caller) (done : Bool)
  /-- In `HAL_ETH_TransmitFrame` or `HAL_ETH_GetReceivedFrame_IT`. -/
  | hal (caller : Caller)
  deriving Repr, DecidableEq

/-- The caller of a thread that executes the body of a driver function. -/
def Pc.driverFor : Pc → Option Caller
  | .driver caller _ | .hal caller => some caller
  | _ => none

def Pc.inHal : Pc → Bool
  | .hal _ => true
  | _ => false

/-- `next` is the thread's next step, `call` a call of the driver from the stack,
    `skip` the return of `low_level_output` before its HAL call, and `irq` the
    interrupt handler, which unlocks the HAL. -/
inductive Act where
  | next (t : Thread)
  | call (t : Thread)
  | skip (t : Thread)
  | irq
  deriving Repr, DecidableEq

/-- `linkUp` and `arpPbuf` are what `HAL_ETH_Init` and the `pbuf_alloc` of the ARP
    request report. `core` and `heth` are the owners of the two locks, and `busy`
    records that a HAL call met the other one and returned `HAL_BUSY`. -/
structure World where
  linkUp : Bool
  arpPbuf : Bool
  pc : Thread → Pc
  core : Option Thread
  heth : Option Thread
  busy : Bool

namespace World

def init (linkUp arpPbuf : Bool) : World where
  linkUp := linkUp
  arpPbuf := arpPbuf
  pc
    | .app => .netifAdd
    | .tcpip => .outside
    | .ethrx => .notCreated
  core := none
  heth := none
  busy := false

def goto (s : World) (t : Thread) (p : Pc) : World :=
  { s with pc := Function.update s.pc t p }

/-- `netif_issue_reports` sends only when the link is up, `etharp_raw` only when it
    gets a pbuf. -/
def netifSetUp (s : World) (t : Thread) : World :=
  if s.linkUp ∧ s.arpPbuf then s.goto t (.driver .gratuitous false) else s.goto t .outside

/-- `__HAL_LOCK` at the start of the HAL call. -/
def enterHal (s : World) (t : Thread) (caller : Caller) : World :=
  match s.heth with
  | none => { s.goto t (.hal caller) with heth := some t }
  | some u => { s.goto t (.driver caller true) with
      busy := s.busy || ((s.pc u).inHal && decide (u ≠ t)) }

def returnTo (s : World) (t : Thread) : Caller → World
  | .stack => s.goto t .inStack
  | .gratuitous => s.goto t .outside

def next (s : World) (t : Thread) : Option World :=
  match s.pc t with
  | .notCreated => none
  | .netifAdd => some ((s.goto .ethrx .outside).goto t .start)
  | .start => match s.heth with
      | none => some { s.goto t .halStart with heth := some t }
      | some _ => some (s.goto t .setUp)
  | .halStart => some { s.goto t .setUp with heth := none }
  | .setUp => some (s.netifSetUp t)
  | .outside => match s.core with
      | none => some { s.goto t .inStack with core := some t }
      | some _ => none
  | .inStack => some { s.goto t .outside with core := none }
  | .driver caller false => some (s.enterHal t caller)
  | .driver caller true => some (s.returnTo t caller)
  | .hal caller => some { s.goto t (.driver caller true) with heth := none }

def step (s : World) : Act → Option World
  | .next t => s.next t
  | .call t => match s.pc t with
      | .inStack => some (s.goto t (.driver .stack false))
      | _ => none
  | .skip t => match s.pc t with
      | .driver caller false => if t = .ethrx then none else some (s.goto t (.driver caller true))
      | _ => none
  | .irq => some { s with heth := none }

/-- Whoever is in the driver holds the core lock, no two threads are in the HAL, and
    none has found the other there. -/
structure Exclusive (s : World) : Prop where
  holdsCore : ∀ t caller, (s.pc t).driverFor = some caller → s.core = some t
  oneInHal : ∀ t u, (s.pc t).inHal = true → (s.pc u).inHal = true → t = u
  notBusy : s.busy = false

end World

/-! ## Without the gratuitous ARP -/

/-- The thread is between `LOCK_TCPIP_CORE` and `UNLOCK_TCPIP_CORE`. -/
def Pc.inSection : Pc → Bool
  | .inStack | .driver .stack _ | .hal .stack => true
  | _ => false

/-- The driver is only entered from the stack. -/
structure Serial (s : World) : Prop where
  silent : ¬ (s.linkUp = true ∧ s.arpPbuf = true)
  owner : ∀ t, (s.pc t).inSection = true → s.core = some t
  noArp : ∀ t, (s.pc t).driverFor ≠ some .gratuitous
  notBusy : s.busy = false

namespace Serial

variable {s s' : World}

theorem init {linkUp arpPbuf : Bool} (silent : ¬ (linkUp = true ∧ arpPbuf = true)) :
    Serial (World.init linkUp arpPbuf) where
  silent := silent
  owner := by
    intro t inside
    cases t <;> cases inside
  noArp := by
    intro t arp
    cases t <;> cases arp
  notBusy := rfl

theorem inDriver (serial : Serial s) {t : Thread} {caller : Caller}
    (inside : (s.pc t).driverFor = some caller) : caller = .stack ∧ s.core = some t := by
  cases caller with
  | gratuitous => exact absurd inside (serial.noArp t)
  | stack =>
      refine ⟨rfl, serial.owner t ?_⟩
      cases stands : s.pc t <;> rw [stands] at inside <;> cases inside <;> rfl

theorem inHal (serial : Serial s) {t : Thread} (inside : (s.pc t).inHal = true) :
    s.core = some t := by
  cases stands : s.pc t <;> rw [stands] at inside <;> cases inside
  rename_i caller
  have driving : (s.pc t).driverFor = some caller := by
    rw [stands]
    rfl
  exact (serial.inDriver driving).2

theorem exclusive (serial : Serial s) : s.Exclusive where
  holdsCore := fun _ _ inside => (serial.inDriver inside).2
  oneInHal := by
    intro t u first second
    have owners := (serial.inHal first).symm.trans (serial.inHal second)
    exact Option.some.inj owners
  notBusy := serial.notBusy

theorem noArp_goto (serial : Serial s) (t : Thread) {p : Pc}
    (noArp : p.driverFor ≠ some .gratuitous) (u : Thread) :
    ((s.goto t p).pc u).driverFor ≠ some .gratuitous := by
  by_cases same : u = t
  · subst same
    simpa only [World.goto, Function.update_self] using noArp
  · simpa only [World.goto, Function.update_of_ne same] using serial.noArp u

theorem goto (serial : Serial s) (t : Thread) (p : Pc)
    (inside : p.inSection = true → s.core = some t)
    (noArp : p.driverFor ≠ some .gratuitous) : Serial (s.goto t p) where
  silent := serial.silent
  owner := by
    intro u inSection
    by_cases same : u = t
    · subst same
      simp only [World.goto, Function.update_self] at inSection
      exact inside inSection
    · simp only [World.goto, Function.update_of_ne same] at inSection
      exact serial.owner u inSection
  noArp := serial.noArp_goto t noArp
  notBusy := serial.notBusy

theorem withHeth (serial : Serial s) (heth : Option Thread) : Serial { s with heth := heth } :=
  ⟨serial.silent, serial.owner, serial.noArp, serial.notBusy⟩

theorem enterHal (serial : Serial s) {t : Thread} {caller : Caller}
    (stands : s.pc t = .driver caller false) : Serial (s.enterHal t caller) := by
  have driving : (s.pc t).driverFor = some caller := by
    rw [stands]
    rfl
  obtain ⟨stack, owner⟩ := serial.inDriver driving
  subst stack
  unfold World.enterHal
  split
  · exact (serial.goto t (.hal .stack) (fun _ => owner) (by simp [Pc.driverFor])).withHeth (some t)
  · rename_i u locked
    have moved := serial.goto t (.driver .stack true) (fun _ => owner) (by simp [Pc.driverFor])
    refine ⟨moved.silent, moved.owner, moved.noArp, ?_⟩
    have alone : ((s.pc u).inHal && decide (u ≠ t)) = false := by
      by_contra met
      simp only [Bool.not_eq_false, Bool.and_eq_true, decide_eq_true_eq] at met
      have owners := (serial.inHal met.1).symm.trans owner
      exact met.2 (Option.some.inj owners)
    simp only [serial.notBusy, alone, Bool.or_false]

theorem lock (serial : Serial s) (t : Thread) (free : s.core = none) :
    Serial { s.goto t .inStack with core := some t } where
  silent := serial.silent
  owner := by
    intro u inSection
    by_cases same : u = t
    · rw [same]
    · simp only [World.goto, Function.update_of_ne same] at inSection
      have owner := serial.owner u inSection
      rw [free] at owner
      cases owner
  noArp := serial.noArp_goto t (by simp [Pc.driverFor])
  notBusy := serial.notBusy

theorem unlock (serial : Serial s) {t : Thread} (stands : s.pc t = .inStack) :
    Serial { s.goto t .outside with core := none } where
  silent := serial.silent
  owner := by
    intro u inSection
    have owner := serial.owner t (by rw [stands]; rfl)
    by_cases same : u = t
    · subst same
      simp [World.goto, Pc.inSection] at inSection
    · simp only [World.goto, Function.update_of_ne same] at inSection
      have other := serial.owner u inSection
      rw [owner] at other
      exact absurd (Option.some.inj other).symm same
  noArp := serial.noArp_goto t (by simp [Pc.driverFor])
  notBusy := serial.notBusy

theorem next (serial : Serial s) {t : Thread} (moved : s.next t = some s') : Serial s' := by
  unfold World.next at moved
  split at moved
  · cases moved
  · cases moved
    have created := serial.goto .ethrx .outside (by simp [Pc.inSection]) (by simp [Pc.driverFor])
    exact created.goto t .start (by simp [Pc.inSection]) (by simp [Pc.driverFor])
  · split at moved <;> cases moved
    · exact (serial.goto t .halStart (by simp [Pc.inSection]) (by simp [Pc.driverFor])).withHeth _
    · exact serial.goto t .setUp (by simp [Pc.inSection]) (by simp [Pc.driverFor])
  · cases moved
    exact (serial.goto t .setUp (by simp [Pc.inSection]) (by simp [Pc.driverFor])).withHeth _
  · cases moved
    rw [World.netifSetUp, if_neg serial.silent]
    exact serial.goto t .outside (by simp [Pc.inSection]) (by simp [Pc.driverFor])
  · split at moved
    · rename_i free
      cases moved
      exact serial.lock t free
    · cases moved
  · rename_i stands
    cases moved
    exact serial.unlock stands
  · rename_i caller stands
    cases moved
    exact serial.enterHal stands
  · rename_i caller stands
    cases moved
    have driving : (s.pc t).driverFor = some caller := by rw [stands]; rfl
    obtain ⟨rfl, owner⟩ := serial.inDriver driving
    exact serial.goto t .inStack (fun _ => owner) (by simp [Pc.driverFor])
  · rename_i caller stands
    cases moved
    have driving : (s.pc t).driverFor = some caller := by rw [stands]; rfl
    obtain ⟨rfl, owner⟩ := serial.inDriver driving
    exact (serial.goto t (.driver .stack true) (fun _ => owner)
      (by simp [Pc.driverFor])).withHeth none

theorem step (serial : Serial s) {a : Act} (moved : s.step a = some s') : Serial s' := by
  unfold World.step at moved
  split at moved
  · exact serial.next moved
  · rename_i t
    split at moved <;> cases moved
    rename_i stands
    have owner := serial.owner t (by rw [stands]; rfl)
    exact serial.goto t _ (fun _ => owner) (by simp [Pc.driverFor])
  · rename_i t
    split at moved
    · rename_i caller stands
      split at moved <;> cases moved
      have driving : (s.pc t).driverFor = some caller := by rw [stands]; rfl
      obtain ⟨rfl, owner⟩ := serial.inDriver driving
      exact serial.goto t _ (fun _ => owner) (by simp [Pc.driverFor])
    · cases moved
  · cases moved
    exact serial.withHeth none

end Serial

/-- The start-up of `App_EthTask` alone, up to the body of `low_level_output`. -/
def announce : List Act := [.next .app, .next .app, .next .app, .next .app]

/-- Every interleaving keeps the driver to the holder of the core lock exactly when the
    start-up sends no gratuitous ARP: the link is down, or the ARP request gets no
    pbuf. -/
theorem driver_exclusive_iff_no_arp (linkUp arpPbuf : Bool) :
    (∀ as s, Runs World.step anyStep (World.init linkUp arpPbuf) as s → s.Exclusive) ↔
      ¬ (linkUp = true ∧ arpPbuf = true) := by
  constructor
  · rintro always ⟨rfl, rfl⟩
    have exhibited : ∃ s, Runs World.step anyStep (World.init true true) announce s ∧
        (s.pc .app).driverFor = some .gratuitous ∧ s.core = none := exists_run (by decide)
    obtain ⟨s, run, inDriver, unlocked⟩ := exhibited
    have owner := (always _ s run).holdsCore .app .gratuitous inDriver
    rw [unlocked] at owner
    cases owner
  · intro silent as s run
    have serial : Serial s := by
      apply run.invariant (Serial.init silent)
      intro t a u before _ moved
      exact before.step moved
    exact serial.exclusive

/-- The `ethrx` task is let into the driver while `App_EthTask` is still in
    `HAL_ETH_TransmitFrame`, and its HAL call returns `HAL_BUSY`. -/
theorem driver_not_exclusive :
    ¬ ∀ as s, Runs World.step anyStep (World.init true true) as s → s.Exclusive := by
  intro always
  have exhibited : ∃ s, Runs World.step anyStep (World.init true true)
      (announce ++ [.next .app, .next .ethrx, .call .ethrx, .next .ethrx]) s ∧ s.busy = true :=
    exists_run (by decide)
  obtain ⟨s, run, met⟩ := exhibited
  have notBusy := (always _ s run).notBusy
  rw [met] at notBusy
  cases notBusy

end ExploreF407.Eth.DriverLock
