import Mathlib.Algebra.Order.Group.Defs
import Mathlib.Logic.Function.Basic
import Mathlib.Tactic.Abel

/-!
# A cache whose entries expire

Calls look a key up in a store that changes under them. A call that finds a live
entry returns its value; another one asks the store, waits for the answer and
leaves it in the cache. The expiry of an entry is reckoned from the start of the
call that left it, and how long it lives depends on its value. Any call may take
a step at any time, and so may the clock and the store.

Results:
1. `Justified.run`: an entry was the answer of the store at some moment, no longer
   ago than its lifetime before its expiry.
2. `returned_recent`: so was a value that is returned, counted from the start of
   its call.
3. `no_missing_key`: no call drops an entry that is not there.
-/

namespace Cache

/-! ## States -/

/-- The one exception of the cache itself is that of an entry to be dropped. -/
inductive Failure (E : Type) where
  | missingKey
  | store (e : E)
  deriving DecidableEq

inductive Phase (K V E T : Type) where
  | idle
  | asking (key : K) (started : T)
  | answered (key : K) (started : T) (answer : Except E V)
  | returned (key : K) (started : T) (value : V)
  | raised (key : K) (failure : Failure E)
  deriving DecidableEq

/-- What the clock shows and the store holds at one moment. -/
structure Moment (S T : Type) where
  clock : T
  store : S

structure State (ι K V E S T : Type) extends Moment S T where
  entries : K → Option (V × T)
  call : ι → Phase K V E T

/-- What a call does between two waits, and what changes around the calls. -/
inductive Event (ι K S T : Type) where
  | start (i : ι) (key : K)
  | ask (i : ι)
  | resume (i : ι)
  | tick (clock : T)
  | change (store : S)

variable {ι K V E S T : Type}

/-- `del entries[key]` -/
def drop [DecidableEq K] (entries : K → Option (V × T)) (key : K) : Option (K → Option (V × T)) :=
  (entries key).map fun _ => Function.update entries key none

namespace State

variable [DecidableEq ι] [DecidableEq K]

def setCall (s : State ι K V E S T) (i : ι) (p : Phase K V E T) : State ι K V E S T :=
  { s with call := Function.update s.call i p }

variable [AddCommGroup T] [LinearOrder T]

/-- The lookup of a call, up to its first wait. -/
def startCall (s : State ι K V E S T) (i : ι) (key : K) : State ι K V E S T :=
  match s.entries key with
  | none => s.setCall i (.asking key s.clock)
  | some (value, expires) =>
    if s.clock < expires then s.setCall i (.returned key s.clock value)
    else
      match drop s.entries key with
      | none => s.setCall i (.raised key .missingKey)
      | some entries => { s with entries }.setCall i (.asking key s.clock)

/-- The rest of a call, after its wait. -/
def resumeCall (lifetime : V → T) (s : State ι K V E S T) (i : ι) (key : K) (started : T) :
    Except E V → State ι K V E S T
  | .ok value =>
    { s with entries := Function.update s.entries key (some (value, started + lifetime value)) }
      |>.setCall i (.returned key started value)
  | .error e => s.setCall i (.raised key (.store e))

variable (lookup : K → S → Except E V) (lifetime : V → T)

/-- A call takes a step where it is at it; the clock does not go back. -/
def step (s : State ι K V E S T) : Event ι K S T → State ι K V E S T
  | .start i key =>
    match s.call i with
    | .idle => s.startCall i key
    | _ => s
  | .ask i =>
    match s.call i with
    | .asking key started => s.setCall i (.answered key started (lookup key s.store))
    | _ => s
  | .resume i =>
    match s.call i with
    | .answered key started answer => s.resumeCall lifetime i key started answer
    | _ => s
  | .tick clock => { s with clock := max s.clock clock }
  | .change store => { s with store }

def run (s : State ι K V E S T) (events : List (Event ι K S T)) : State ι K V E S T :=
  events.foldl (step lookup lifetime) s

/-- The moments a run goes through, the last one first. -/
def moments (s : State ι K V E S T) : List (Event ι K S T) → List (Moment S T)
  | [] => [s.toMoment]
  | e :: events => moments (s.step lookup lifetime e) events ++ [s.toMoment]

theorem run_append (s : State ι K V E S T) (events : List (Event ι K S T)) (e : Event ι K S T) :
    s.run lookup lifetime (events ++ [e]) =
      (s.run lookup lifetime events).step lookup lifetime e := by
  rw [run, run, List.foldl_append]
  rfl

theorem mem_moments (s : State ι K V E S T) (events : List (Event ι K S T)) :
    s.toMoment ∈ s.moments lookup lifetime events := by
  cases events with
  | nil => exact List.mem_singleton_self _
  | cons e events => exact List.mem_append_right _ (List.mem_singleton_self _)

/-- The value of an entry that has not expired. -/
def live (s : State ι K V E S T) (key : K) : Option V :=
  match s.entries key with
  | none => none
  | some (value, expires) => if s.clock < expires then some value else none

end State

/-- No entry, and no call. -/
def State.initial (m : Moment S T) : State ι K V E S T :=
  { m with entries := fun _ => none, call := fun _ => .idle }

/-! ## A call alone -/

section Alone

variable [DecidableEq ι] [DecidableEq K] [LinearOrder T] {lookup : K → S → Except E V}
  {s : State ι K V E S T} {i : ι} {key : K}

/-- How a call ends that the store has answered. -/
def Phase.ofAnswer (key : K) (started : T) : Except E V → Phase K V E T
  | .ok value => .returned key started value
  | .error e => .raised key (.store e)

namespace State

omit [DecidableEq K] [LinearOrder T] in
theorem setCall_call (p : Phase K V E T) : (s.setCall i p).call i = p := Function.update_self ..

theorem startCall_live {value : V} (h : s.live key = some value) :
    s.startCall i key = s.setCall i (.returned key s.clock value) := by
  unfold live at h
  unfold startCall
  cases hentry : s.entries key with
  | none =>
    rw [hentry] at h
    cases h
  | some entry =>
    rw [hentry] at h
    dsimp only at h ⊢
    split at h
    · next hlive =>
      cases h
      rw [if_pos hlive]
    · cases h

/-- A call that finds nothing live goes on to ask, of a cache without the entry. -/
theorem startCall_not_live (h : s.live key = none) :
    ∃ entries, s.startCall i key = { s with entries }.setCall i (.asking key s.clock) := by
  unfold live at h
  unfold startCall
  cases hentry : s.entries key with
  | none => exact ⟨s.entries, rfl⟩
  | some entry =>
    rw [hentry] at h
    dsimp only at h ⊢
    split at h
    · cases h
    · next hexpired =>
      rw [if_neg hexpired, drop, hentry]
      exact ⟨_, rfl⟩

variable [AddCommGroup T] {lifetime : V → T}

omit [LinearOrder T] in
theorem resumeCall_call (s : State ι K V E S T) (started : T) (answer : Except E V) :
    (s.resumeCall lifetime i key started answer).call i = .ofAnswer key started answer := by
  cases answer with
  | ok value => exact Function.update_self ..
  | error e => exact Function.update_self ..

theorem call_hit (hidle : s.call i = .idle) {value : V} (h : s.live key = some value) :
    (s.run lookup lifetime [.start i key, .ask i, .resume i]).call i =
      .returned key s.clock value := by
  have hstart : s.step lookup lifetime (.start i key) =
      s.setCall i (.returned key s.clock value) := by
    simp only [step, hidle, startCall_live h]
  have hask : (s.setCall i (.returned key s.clock value)).step lookup lifetime (.ask i) =
      s.setCall i (.returned key s.clock value) := by
    simp only [step, setCall_call]
  have hresume : (s.setCall i (.returned key s.clock value)).step lookup lifetime (.resume i) =
      s.setCall i (.returned key s.clock value) := by
    simp only [step, setCall_call]
  rw [run, List.foldl_cons, List.foldl_cons, List.foldl_cons, List.foldl_nil, hstart, hask,
    hresume, setCall_call]

theorem call_miss (hidle : s.call i = .idle) (h : s.live key = none) :
    (s.run lookup lifetime [.start i key, .ask i, .resume i]).call i =
      .ofAnswer key s.clock (lookup key s.store) := by
  obtain ⟨entries, hcall⟩ := startCall_not_live (i := i) h
  have hstart : s.step lookup lifetime (.start i key) =
      { s with entries }.setCall i (.asking key s.clock) := by
    simp only [step, hidle, hcall]
  rw [run, List.foldl_cons, hstart, List.foldl_cons, List.foldl_cons, List.foldl_nil]
  simp only [step, setCall_call]
  exact resumeCall_call _ _ _

end State

end Alone

/-! ## Where answers come from -/

section

variable [AddCommGroup T] [LinearOrder T] (lookup : K → S → Except E V) (lifetime : V → T)

/-- What a call has found is an answer of the store at a moment of `past`. -/
def PhaseJustified (past : List (Moment S T)) (clock : T) : Phase K V E T → Prop
  | .idle => True
  | .asking _ started => started ≤ clock
  | .answered key started answer => ∃ m ∈ past, started ≤ m.clock ∧ lookup key m.store = answer
  | .returned key started value =>
    ∃ m ∈ past, started - lifetime value ≤ m.clock ∧ lookup key m.store = .ok value
  | .raised key failure =>
    ∃ e, failure = .store e ∧ ∃ m ∈ past, lookup key m.store = .error e

/-- An entry is an answer no older than its lifetime when it expires. -/
structure Justified (past : List (Moment S T)) (s : State ι K V E S T) : Prop where
  now : s.toMoment ∈ past
  entry : ∀ key value expires, s.entries key = some (value, expires) →
    ∃ m ∈ past, expires ≤ m.clock + lifetime value ∧ lookup key m.store = .ok value
  call : ∀ i, PhaseJustified lookup lifetime past s.clock (s.call i)

variable {lookup lifetime} {past past' : List (Moment S T)} {s : State ι K V E S T} {i : ι}
  {key : K} {started : T}

theorem PhaseJustified.mono {clock clock' : T} {p : Phase K V E T}
    (h : PhaseJustified lookup lifetime past clock p) (hpast : past ⊆ past')
    (hclock : clock ≤ clock') : PhaseJustified lookup lifetime past' clock' p := by
  cases p with
  | idle => trivial
  | asking => exact le_trans h hclock
  | answered | returned =>
    obtain ⟨m, hm, h⟩ := h
    exact ⟨m, hpast hm, h⟩
  | raised =>
    obtain ⟨e, rfl, m, hm, h⟩ := h
    exact ⟨e, rfl, m, hpast hm, h⟩

namespace Justified

theorem mono (h : Justified lookup lifetime past s) (hpast : past ⊆ past') :
    Justified lookup lifetime past' s where
  now := hpast h.now
  entry key value expires hk := by
    obtain ⟨m, hm, h'⟩ := h.entry key value expires hk
    exact ⟨m, hpast hm, h'⟩
  call i := (h.call i).mono hpast le_rfl

/-- The moment after a step is one more. -/
theorem later (h : Justified lookup lifetime past s) (m : Moment S T) (hm : s.clock ≤ m.clock) :
    Justified lookup lifetime (m :: past) { s with toMoment := m } where
  now := List.mem_cons_self
  entry key value expires hk := by
    obtain ⟨m', hm', h'⟩ := h.entry key value expires hk
    exact ⟨m', List.mem_cons_of_mem _ hm', h'⟩
  call i := (h.call i).mono (List.subset_cons_self m past) hm

/-- Fewer entries need no more justification. -/
theorem drop [DecidableEq K] (h : Justified lookup lifetime past s) {entries : K → Option (V × T)}
    (hdrop : Cache.drop s.entries key = some entries) :
    Justified lookup lifetime past { s with entries } where
  now := h.now
  entry k value expires hk := by
    obtain ⟨_, -, rfl⟩ := Option.map_eq_some_iff.mp hdrop
    dsimp only at hk
    by_cases heq : k = key
    · subst heq
      rw [Function.update_self] at hk
      cases hk
    · rw [Function.update_of_ne heq] at hk
      exact h.entry k value expires hk
  call := h.call

variable [DecidableEq ι]

theorem setCall (h : Justified lookup lifetime past s) {p : Phase K V E T}
    (hp : PhaseJustified lookup lifetime past s.clock p) :
    Justified lookup lifetime past (s.setCall i p) where
  now := h.now
  entry := h.entry
  call j := by
    dsimp only [State.setCall]
    by_cases hj : j = i
    · subst hj
      rwa [Function.update_self]
    · rw [Function.update_of_ne hj]
      exact h.call j

theorem ask (h : Justified lookup lifetime past s) (hcall : s.call i = .asking key started) :
    Justified lookup lifetime past (s.setCall i (.answered key started (lookup key s.store))) := by
  have hstarted : PhaseJustified lookup lifetime past s.clock (.asking key started) :=
    hcall ▸ h.call i
  exact h.setCall ⟨s.toMoment, h.now, hstarted, rfl⟩

variable [DecidableEq K] [IsOrderedAddMonoid T]

theorem startCall (h : Justified lookup lifetime past s) :
    Justified lookup lifetime past (s.startCall i key) := by
  unfold State.startCall
  cases hentry : s.entries key with
  | none => exact h.setCall le_rfl
  | some entry =>
    obtain ⟨value, expires⟩ := entry
    dsimp only
    split
    · next hlive =>
      obtain ⟨m, hm, hexpires, hlookup⟩ := h.entry key value expires hentry
      exact h.setCall ⟨m, hm, sub_le_iff_le_add.mpr (hlive.le.trans hexpires), hlookup⟩
    · -- The entry has just been read, so it can be dropped.
      have hdrop : Cache.drop s.entries key = some (Function.update s.entries key none) := by
        rw [Cache.drop, hentry, Option.map_some]
      rw [hdrop]
      exact (h.drop hdrop).setCall le_rfl

theorem resumeCall (hlifetime : ∀ value, 0 ≤ lifetime value)
    (h : Justified lookup lifetime past s) {answer : Except E V}
    (hcall : s.call i = .answered key started answer) :
    Justified lookup lifetime past (s.resumeCall lifetime i key started answer) := by
  have hanswer : PhaseJustified lookup lifetime past s.clock (.answered key started answer) :=
    hcall ▸ h.call i
  obtain ⟨m, hm, hstarted, hlookup⟩ := hanswer
  cases answer with
  | error e => exact h.setCall ⟨e, rfl, m, hm, hlookup⟩
  | ok value =>
    have hentries : Justified lookup lifetime past { s with
        entries := Function.update s.entries key (some (value, started + lifetime value)) } := by
      refine ⟨h.now, fun k v expires hk => ?_, h.call⟩
      dsimp only at hk
      by_cases heq : k = key
      · subst heq
        rw [Function.update_self] at hk
        cases hk
        exact ⟨m, hm, by gcongr, hlookup⟩
      · rw [Function.update_of_ne heq] at hk
        exact h.entry k v expires hk
    have hage := (sub_le_self started (hlifetime value)).trans hstarted
    exact hentries.setCall ⟨m, hm, hage, hlookup⟩

theorem step (hlifetime : ∀ value, 0 ≤ lifetime value) (h : Justified lookup lifetime past s)
    (e : Event ι K S T) :
    Justified lookup lifetime ((s.step lookup lifetime e).toMoment :: past)
      (s.step lookup lifetime e) := by
  have hstay : ∀ s' : State ι K V E S T, Justified lookup lifetime past s' →
      Justified lookup lifetime (s'.toMoment :: past) s' := fun s' h' => h'.later s'.toMoment le_rfl
  cases e with
  | start i key =>
    simp only [State.step]
    split
    · exact hstay _ h.startCall
    · exact hstay _ h
  | ask i =>
    simp only [State.step]
    split
    · next key started hcall => exact hstay _ (h.ask hcall)
    · exact hstay _ h
  | resume i =>
    simp only [State.step]
    split
    · next key started answer hcall => exact hstay _ (h.resumeCall hlifetime hcall)
    · exact hstay _ h
  | tick clock => exact h.later ⟨max s.clock clock, s.store⟩ (le_max_left _ _)
  | change store => exact h.later ⟨s.clock, store⟩ le_rfl

theorem run (hlifetime : ∀ value, 0 ≤ lifetime value) (h : Justified lookup lifetime past s)
    (events : List (Event ι K S T)) :
    Justified lookup lifetime (s.moments lookup lifetime events ++ past)
      (s.run lookup lifetime events) := by
  induction events generalizing past s with
  | nil => exact h.mono (List.subset_append_right _ _)
  | cons e events ih =>
    refine (ih (h.step hlifetime e)).mono fun m hm => ?_
    rw [State.moments, List.append_assoc, List.mem_append]
    rcases List.mem_append.mp hm with hm | hm
    · exact .inl hm
    · rcases List.mem_cons.mp hm with rfl | hm
      · exact .inl (State.mem_moments _ _ _ _)
      · exact .inr (List.mem_cons_of_mem _ hm)

end Justified

theorem justified_initial (m : Moment S T) :
    Justified lookup lifetime [m] (State.initial m : State ι K V E S T) where
  now := List.mem_singleton_self m
  entry _ _ _ h := by cases h
  call _ := trivial

/-! ## Runs from the start -/

variable [DecidableEq ι] [DecidableEq K]

/-- The step answers the call. -/
structure AnsweredBy (lookup : K → S → Except E V) (lifetime : V → T) (s : State ι K V E S T)
    (e : Event ι K S T) (i : ι) (key : K) (started : T) (value : V) : Prop where
  before : ∀ key' started' value', s.call i ≠ .returned key' started' value'
  after : (s.step lookup lifetime e).call i = .returned key started value

variable [IsOrderedAddMonoid T]

variable (lookup) in
theorem justified_run (hlifetime : ∀ value, 0 ≤ lifetime value) (m : Moment S T)
    (events : List (Event ι K S T)) :
    Justified lookup lifetime ((State.initial m).moments lookup lifetime events ++ [m])
      ((State.initial m : State ι K V E S T).run lookup lifetime events) :=
  (justified_initial m).run hlifetime events

/-- A value is what the store answered at a moment of the run, up to the step that
returns it and no longer ago than the lifetime before the start of the call. -/
theorem returned_recent (hlifetime : ∀ value, 0 ≤ lifetime value) (m : Moment S T)
    (events : List (Event ι K S T)) (e : Event ι K S T) {value : V}
    (h : AnsweredBy lookup lifetime ((State.initial m).run lookup lifetime events) e i key
      started value) :
    ∃ m' ∈ (State.initial m : State ι K V E S T).moments lookup lifetime (events ++ [e]),
      started - lifetime value ≤ m'.clock ∧ lookup key m'.store = .ok value := by
  have hcall := (justified_run lookup hlifetime m (events ++ [e])).call i
  rw [State.run_append, h.after] at hcall
  obtain ⟨m', hm', hrecent⟩ := hcall
  refine ⟨m', ?_, hrecent⟩
  rcases List.mem_append.mp hm' with hm' | hm'
  · exact hm'
  · rw [List.mem_singleton.mp hm']
    exact State.mem_moments lookup lifetime (State.initial m) _

/-- No call drops an entry that is not there. -/
theorem no_missing_key (hlifetime : ∀ value, 0 ≤ lifetime value) (m : Moment S T)
    (events : List (Event ι K S T)) :
    ((State.initial m).run lookup lifetime events).call i ≠ .raised key .missingKey := by
  intro h
  have hcall := (justified_run lookup hlifetime m events).call i
  rw [h] at hcall
  obtain ⟨e, he, -⟩ := hcall
  cases he

end

end Cache
