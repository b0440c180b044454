import ExpenseEngine.Refinement.Pages
import ExpenseEngine.Reports.MonthWindow
import ExpenseEngine.Sql.TenantRuns
import ExpenseEngine.Tenancy.Reads

/-!
# Users do not see each other

All users share the tables, and no policy of the database keeps them apart: the
conditions of the statements do. Here a request arrives with its token, is
authenticated and served. What a user is answered, and what the tables show it
afterwards, depends on its own requests alone.

Results:
1. `own_requests_determine_answers`: one request after another.
2. `lone_request_unaffected`: the only request of a user, in any interleaving
   with requests of others.
3. `requests_serializable`: requests of different users, in any interleaving.
-/

namespace ExpenseEngine

open Sql Sql.Prog TenantLemmas TenantStatements TenantRequests

/-! ## Arrivals -/

/-- A request as it reaches the engine. -/
structure Arrival where
  authorization : Option Text
  env : Env
  key : Option Text
  fingerprint : Option Text
  request : Request ⊕ ReadRequest

inductive Outcome where
  | reply (r : Reply)
  | response (r : ReadResponse)

section Users

variable [Platform] [Locale] [CaseFolding]

/-- The token says for whom the handler runs. The lookup has a connection of its
own; as the first statement of the transaction it sees the same rows and locks
nothing. -/
def Arrival.op (a : Arrival) : Op Outcome := do
  let userId ← getCurrentUser a.authorization
  match a.request with
  | .inl request => .reply <$> (Call.mk a.env userId a.key a.fingerprint request).handle
  | .inr q => .response <$> q.answer a.env userId

/-- The state after a request: committed, or rolled back. -/
def serve (db : Db) (a : Arrival) : Db :=
  match exec a.op db with
  | .ok (_, db') => db'
  | .error _ => db

def serveAll (db : Db) (arrivals : List Arrival) : Db := arrivals.foldl serve db

/-- What the requests in `mine` are answered. -/
def transcript (mine : Arrival → Bool) : Db → List Arrival → List
    (Except (Failure AppError) Outcome)
  | _, [] => []
  | db, a :: arrivals =>
    (if mine a then [(exec a.op db).map Prod.fst] else []) ++ transcript mine (serve db a) arrivals

/-- The requests of `u`. -/
def sentBy (sender : Arrival → Uuid) (u : Uuid) (a : Arrival) : Bool := decide (sender a = u)

omit [Locale] [CaseFolding] in
/-- The token and the new ids of the request lie in the territory of `u`. It may
name any other id. -/
structure Arrival.Draws (a : Arrival) (W : Territory) (u : Uuid) : Prop where
  token : ∀ token, bearerToken a.authorization = some token → W.hashes u (hashPat token)
  env : a.env.Draws W u
  ids : ∀ request, a.request = .inl request → ∀ i ∈ request.newIds, W.ids u i

variable {W : Territory} {u v : Uuid} {db db' : Db} {a : Arrival}

namespace TenantUsers

omit [Locale] [CaseFolding] in
/-- A token of the territory of `u` lets in `u`, or nobody. -/
theorem confined_getCurrentUser {authorization : Option Text}
    (h : ∀ token, bearerToken authorization = some token → W.hashes u (hashPat token)) :
    (getCurrentUser authorization).Confined W.tenancy u fun userId => userId = u := by
  unfold getCurrentUser
  refine confined_bind confined_orRaise fun token htoken => ?_
  have hhash := h token htoken
  refine confined_bind confined_check fun _ _ => ?_
  refine confined_bind (φ := fun o => ∀ r, o = some r → r.userId = u)
    (confined_read (fun db db' h => h.find?_eq ?_) fun db hdb r hr => ?_) fun o ho =>
      confined_bind confined_orRaise fun row hrow => confined_pure (ho row hrow)
  · intro v r hv hr
    exact decide_eq_false fun hw => hv (W.hashes_apart hhash (hw.1 ▸ hr.2.2))
  · have hfound := List.find?_some hr
    have hw := of_decide_eq_true hfound
    have howned := owned_of_mem hdb (List.mem_of_find?_eq_some hr) rfl
    exact W.hashes_apart hhash (hw.1 ▸ howned.2.2)

theorem confined_op (h : a.Draws W u) : a.op.Confined W.tenancy u fun _ => True := by
  unfold Arrival.op
  refine confined_bind (confined_getCurrentUser h.token) fun userId huser => ?_
  subst huser
  split
  · next request hrequest =>
    have hcall : Call.Draws ⟨a.env, userId, a.key, a.fingerprint, request⟩ W :=
      ⟨h.env, h.ids request hrequest⟩
    exact confined_map (confined_any (confined_handle hcall))
  · exact confined_map (confined_any confined_answer)

/-- A request of somebody else. -/
theorem alike_serve_other (h : a.Draws W v) (huv : u ≠ v) (hdb : W.tenancy.Partitioned db) :
    W.tenancy.Alike u db (serve db a) := by
  unfold serve
  split
  · next outcome db₁ hexec =>
    exact ((confined_op h).others W.lawful hdb hexec).2.2 u huv
  · exact .refl hdb

/-- A request of one's own. -/
theorem alike_serve (h : a.Draws W u) (hdb : W.tenancy.Alike u db db') :
    (exec a.op db).map Prod.fst = (exec a.op db').map Prod.fst ∧
      W.tenancy.Alike u (serve db a) (serve db' a) := by
  have hsame := (confined_op h).same W.lawful hdb
  unfold serve
  generalize exec a.op db = res at hsame
  generalize exec a.op db' = res' at hsame
  cases hsame with
  | ok hR => exact ⟨rfl, hR⟩
  | error e => exact ⟨rfl, hdb⟩

/-- The requests of the others can be left out. -/
theorem transcript_filter {sender : Arrival → Uuid} {arrivals : List Arrival}
    (h : W.tenancy.Alike u db db') (hdraws : ∀ a ∈ arrivals, a.Draws W (sender a)) :
    transcript (sentBy sender u) db arrivals =
        transcript (sentBy sender u) db' (arrivals.filter (sentBy sender u)) ∧
      W.tenancy.Alike u (serveAll db arrivals)
        (serveAll db' (arrivals.filter (sentBy sender u))) := by
  induction arrivals generalizing db db' with
  | nil => exact ⟨rfl, h⟩
  | cons a arrivals ih =>
    have ha := hdraws a List.mem_cons_self
    have hrest := fun b hb => hdraws b (List.mem_cons_of_mem _ hb)
    by_cases hmine : sender a = u
    · have hsent : sentBy sender u a = true := decide_eq_true hmine
      obtain ⟨hanswer, hnext⟩ := alike_serve (hmine ▸ ha) h
      obtain ⟨htranscript, hend⟩ := ih hnext hrest
      rw [List.filter_cons_of_pos hsent]
      refine ⟨?_, hend⟩
      rw [transcript, transcript, hanswer, htranscript]
    · have hsent : ¬sentBy sender u a = true := by rw [sentBy, decide_eq_true_eq]; exact hmine
      have hnext := (alike_serve_other ha (Ne.symm hmine) h.left).symm.trans h
      obtain ⟨htranscript, hend⟩ := ih hnext hrest
      rw [List.filter_cons_of_neg hsent]
      refine ⟨?_, hend⟩
      rw [transcript, htranscript, if_neg hsent, List.nil_append]

end TenantUsers

open TenantUsers

/-- What a user is answered, and what the tables show it in the end, depends on
its own requests and on the rows it saw at the start, and on nothing that others
store or ask for. -/
theorem own_requests_determine_answers {sender : Arrival → Uuid} {as bs : List Arrival}
    (hdb : W.tenancy.Alike u db db') (has : ∀ a ∈ as, a.Draws W (sender a))
    (hbs : ∀ b ∈ bs, b.Draws W (sender b))
    (hsame : as.filter (sentBy sender u) = bs.filter (sentBy sender u)) :
    transcript (sentBy sender u) db as = transcript (sentBy sender u) db' bs ∧
      ∀ t, W.tenancy.slice u (serveAll db as) t = W.tenancy.slice u (serveAll db' bs) t := by
  obtain ⟨hta, hea⟩ := transcript_filter hdb has
  obtain ⟨htb, heb⟩ := transcript_filter (.refl hdb.right) hbs
  rw [hsame] at hta hea
  exact ⟨hta.trans htb.symm, (hea.trans heb.symm).slice⟩

/-! ## Side by side -/

variable {ι : Type} [Fintype ι] [DecidableEq ι] {arrivals : ι → Arrival} {sender : ι → Uuid}

/-- The only request of a user, among requests of others in any interleaving,
ends as it would end alone: with the same answer and the same rows, or with the
same error. Until it commits its user sees no change. -/
theorem lone_request_unaffected (hdb : W.tenancy.Partitioned db)
    (hdraws : ∀ i, (arrivals i).Draws W (sender i)) {i : ι}
    (hlone : ∀ j, j ≠ i → sender j ≠ sender i) (events : List (Event ι)) :
    let s := (State.start db fun j => (arrivals j).op).run events
    (∀ outcome, (s.party i).phase = .committed outcome →
      ∃ db₁, exec (arrivals i).op db = .ok (outcome, db₁) ∧
        ∀ t, W.tenancy.slice (sender i) s.db t = W.tenancy.slice (sender i) db₁ t) ∧
    (∀ e, (s.party i).phase = .failed e → exec (arrivals i).op db = .error e) ∧
    ((∀ outcome, (s.party i).phase ≠ .committed outcome) →
      ∀ t, W.tenancy.slice (sender i) s.db t = W.tenancy.slice (sender i) db t) := by
  intro s
  have h := lone_run W.lawful hdb (fun j => confined_op (hdraws j)) hlone events
  refine ⟨fun outcome hphase => ?_, fun e hphase => ?_, fun hphase t => ?_⟩
  · rw [Lone, hphase] at h
    obtain ⟨db₁, hexec, halike⟩ := h
    exact ⟨db₁, hexec, fun t => (halike.slice t).symm⟩
  · rw [Lone, hphase] at h
    exact h.1
  · unfold Lone at h
    split at h
    · exact (h.1.slice t).symm
    · next outcome hcommitted => exact absurd hcommitted (hphase outcome)
    · exact (h.2.slice t).symm
    · exact (h.slice t).symm

/-- Requests of different users, in any interleaving, are as good as the
committed ones one after another, in whatever order: the same answers and the
same rows. -/
theorem requests_serializable (hdb : W.tenancy.Partitioned db)
    (hdraws : ∀ i, (arrivals i).Draws W (sender i)) (hsender : Function.Injective sender)
    (events : List (Event ι)) {past : List (ι × Outcome)}
    (hpast : past.Perm ((State.start db fun i => (arrivals i).op).history events)) :
    ∃ db₂, SerialRun (fun i => (arrivals i).op) db past db₂ ∧
      ∀ t, (db₂.rows t).Perm
        (((State.start db fun i => (arrivals i).op).run events).db.rows t) :=
  serial_of_history W.lawful hdb (fun i => confined_op (hdraws i)) hsender events hpast

end Users

/-! ## Two users -/

namespace Ascii

/-- The users 0 and 1: the even and the odd. -/
def parity : Territory where
  ids u x := x % 2 = u
  hashes u x := x.length % 2 = u
  ids_apart h h' := h'.symm.trans h
  hashes_apart h h' := h'.symm.trans h

/-- The token of a user, without its prefix. -/
def secretOf (u : Uuid) : Text := "secret".toList ++ List.replicate u 'x'

/-- What a request of the user takes from outside at the time `now`. -/
def envOf (u : Uuid) (now : Timestamp) : Env :=
  { envAt now with
    uuid := fun n => 2 * (envAt now).uuid n + u
    storeUuid := 2 * (envAt now).storeUuid + u
    token := secretOf u }

def callOf (u : Uuid) (now : Timestamp) (request : Request) : Call :=
  ⟨envOf u now, u, none, none, request⟩

/-- A request that carries the user's token. -/
def arrival (u : Uuid) (now : Timestamp) (request : Request ⊕ ReadRequest) : Arrival :=
  ⟨some ("Bearer ".toList ++ patPrefix ++ secretOf u), envOf u now, none, none, request⟩

/-- Whose token a request carries. -/
def carrier (a : Arrival) : Uuid := ((a.authorization.getD []).length + 1) % 2

/-- Two users, each with settings and a token. -/
def twoUsers : List Call := [
  callOf 0 1 (.bootstrap "Ann".toList "UTC".toList), callOf 0 2 (.createPat none),
  callOf 1 3 (.bootstrap "Bob".toList "UTC".toList), callOf 1 4 (.createPat none)]

/-- Bob and Ann each create a category of one name and list the categories. -/
def bothAsk : List Arrival := [
  arrival 1 5 (.inl (.createCategory ⟨41, "Food".toList, "#000000".toList, none⟩)),
  arrival 0 6 (.inl (.createCategory ⟨40, "Food".toList, "#000000".toList, none⟩)),
  arrival 1 7 (.inr (.listCategories false 50 0)), arrival 0 8 (.inr (.listCategories false 50 0))]

theorem draws_envOf {u : Uuid} (hu : u = 0 ∨ u = 1) (now : Timestamp) :
    (envOf u now).Draws parity u := by
  have hid : ∀ n, (2 * n + u) % 2 = u := by
    intro n
    rcases hu with rfl | rfl
    · exact Nat.mul_mod_right 2 n
    · exact Nat.mul_add_mod 2 n 1
  refine ⟨fun n => hid _, hid _, ?_⟩
  show (hashPat (patPrefix ++ secretOf u)).length % 2 = u
  rcases hu with rfl | rfl
  · decide +kernel
  · decide +kernel

theorem partitioned_twoUsers : parity.tenancy.Partitioned (run blank twoUsers) := by
  refine partitioned_run (fun t r hr => by cases hr) fun c hc => ?_
  simp only [twoUsers, List.mem_cons, List.not_mem_nil, or_false] at hc
  rcases hc with rfl | rfl | rfl | rfl
  all_goals exact ⟨draws_envOf (by decide) _, by simp [callOf, Request.newIds]⟩

theorem draws_arrival {u : Uuid} (hu : u = 0 ∨ u = 1) (now : Timestamp)
    {request : Request ⊕ ReadRequest}
    (h : ∀ r, request = .inl r → ∀ i ∈ r.newIds, i % 2 = u) :
    (arrival u now request).Draws parity u where
  token := by
    have htoken : bearerToken (arrival u now request).authorization =
        some (patPrefix ++ secretOf u) := by
      rcases hu with rfl | rfl
      · rfl
      · rfl
    rw [htoken]
    rintro _ ⟨⟩
    exact (draws_envOf hu now).token
  env := draws_envOf hu now
  ids := h

theorem carrier_arrival {u : Uuid} (hu : u = 0 ∨ u = 1) (now : Timestamp)
    (request : Request ⊕ ReadRequest) : carrier (arrival u now request) = u := by
  show (("Bearer ".toList ++ patPrefix ++ secretOf u).length + 1) % 2 = u
  rcases hu with rfl | rfl
  · decide +kernel
  · decide +kernel

/-- Ids of the user's parity. -/
theorem draws_carrier {u : Uuid} (hu : u = 0 ∨ u = 1) (now : Timestamp)
    {request : Request ⊕ ReadRequest}
    (h : ∀ r, request = .inl r → ∀ i ∈ r.newIds, i % 2 = u) :
    (arrival u now request).Draws parity (carrier (arrival u now request)) := by
  rw [carrier_arrival hu]
  exact draws_arrival hu now h

theorem draws_bothAsk : ∀ a ∈ bothAsk, a.Draws parity (carrier a) := by
  have hcreate : ∀ body : CategoryCreateRequest, ∀ r, Sum.inl (.createCategory body) =
      (Sum.inl r : Request ⊕ ReadRequest) → ∀ i ∈ r.newIds, i % 2 = body.id % 2 := by
    rintro body _ ⟨⟩ i hi
    rw [List.mem_singleton.mp hi]
  intro a ha
  simp only [bothAsk, List.mem_cons, List.not_mem_nil, or_false] at ha
  rcases ha with rfl | rfl | rfl | rfl
  · exact draws_carrier (by decide) 5 (hcreate _)
  · exact draws_carrier (by decide) 6 (hcreate _)
  · exact draws_carrier (by decide) 7 (by rintro _ ⟨⟩)
  · exact draws_carrier (by decide) 8 (by rintro _ ⟨⟩)

/-- The two creations as parties, step by step in turn. -/
def creations (i : Fin 2) : Arrival :=
  arrival i.val 5 (.inl (.createCategory ⟨40 + i.val, "Food".toList, "#000000".toList, none⟩))

def turns : List (Event (Fin 2)) :=
  (List.replicate 8 [Event.act ⟨0, by decide⟩, Event.act ⟨1, by decide⟩]).flatten

theorem draws_creations (i : Fin 2) : (creations i).Draws parity i.val := by
  have hi : i.val = 0 ∨ i.val = 1 := by omega
  refine draws_arrival hi 5 ?_
  rintro _ ⟨⟩ j hj
  rw [List.mem_singleton.mp hj]
  show (40 + i.val) % 2 = i.val
  omega

end Ascii

open Ascii in
theorem own_requests_determine_answers_categories :
    transcript (sentBy carrier 0) (run blank twoUsers) bothAsk =
        transcript (sentBy carrier 0) (run blank twoUsers) (bothAsk.filter (sentBy carrier 0)) ∧
      ∀ t, parity.tenancy.slice 0 (serveAll (run blank twoUsers) bothAsk) t =
        parity.tenancy.slice 0
          (serveAll (run blank twoUsers) (bothAsk.filter (sentBy carrier 0))) t :=
  own_requests_determine_answers (.refl partitioned_twoUsers) draws_bothAsk
    (fun b hb => draws_bothAsk b (List.mem_filter.mp hb).1) (by simp)

open Ascii in
theorem lone_request_unaffected_creation :
    let s := (State.start (run blank twoUsers) fun j => (creations j).op).run turns
    (∀ outcome, (s.party 1).phase = .committed outcome →
      ∃ db₁, exec (creations 1).op (run blank twoUsers) = .ok (outcome, db₁) ∧
        ∀ t, parity.tenancy.slice 1 s.db t = parity.tenancy.slice 1 db₁ t) ∧
    (∀ e, (s.party 1).phase = .failed e →
      exec (creations 1).op (run blank twoUsers) = .error e) ∧
    ((∀ outcome, (s.party 1).phase ≠ .committed outcome) →
      ∀ t, parity.tenancy.slice 1 s.db t = parity.tenancy.slice 1 (run blank twoUsers) t) :=
  lone_request_unaffected partitioned_twoUsers draws_creations (i := 1)
    (fun _ hj h => hj (Fin.ext h)) turns

open Ascii in
theorem requests_serializable_creations :
    ∃ db₂, SerialRun (fun i => (creations i).op) (run blank twoUsers)
        ((State.start (run blank twoUsers) fun i => (creations i).op).history turns) db₂ ∧
      ∀ t, (db₂.rows t).Perm
        (((State.start (run blank twoUsers) fun i => (creations i).op).run turns).db.rows t) :=
  requests_serializable partitioned_twoUsers draws_creations Fin.val_injective turns (.refl _)

end ExpenseEngine
