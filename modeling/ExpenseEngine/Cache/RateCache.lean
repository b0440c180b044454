import Mathlib.Algebra.Order.Ring.Rat
import ExpenseEngine.Cache.Ttl
import ExpenseEngine.Refinement.Rates

/-!
# The rate cache

`get_rate` keeps what it finds for an hour, and for a minute that it found
nothing. It looks into the cache before its one `await` and writes to it after
that, so calls of one key may look the rate up together and leave their answers in
any order.

Results:
1. `getRate_uninterrupted`: a call that nothing comes between is `getRate` with
   the entries that have not expired.
2. `get_rate_recent`: what a call returns is what the table had an hour before its
   start or later, or a minute before if there was no rate.
-/

namespace ExpenseEngine

open Cache Num Sql Sql.Prog

section

variable [Platform]

/-! ## Calls -/

def rateCacheTtlSeconds : Rat := 3600

def negativeRateCacheTtlSeconds : Rat := 60

/-- `cache_key`: the currencies in upper case, and the date. -/
abbrev RateKey := Text × Text × Date

def lookupRate (key : RateKey) (db : Db) : Except Signal RateResult :=
  rateFromDb db key.1 key.2.1 key.2.2

def rateTtl (result : RateResult) : Rat :=
  if result.isSome then rateCacheTtlSeconds else negativeRateCacheTtlSeconds

/-- A worker with its cache and its calls. -/
abbrev RateWorker := State Nat RateKey RateResult Signal Db Rat

abbrev RateEvent := Event Nat RateKey Db Rat

/-- The start of `get_rate`. -/
def getRateCall (i : Nat) (fromCurrency toCurrency : Text) (asOf : Date) : RateEvent :=
  .start i (Platform.pyUpper fromCurrency, Platform.pyUpper toCurrency, asOf)

/-- A worker that has just started. -/
def coldWorker (now : Moment Db Rat) : RateWorker := State.initial now

def RateWorker.run (w : RateWorker) (events : List RateEvent) : RateWorker :=
  State.run lookupRate rateTtl w events

omit [Platform] in
theorem rateTtl_nonneg (result : RateResult) : 0 ≤ rateTtl result := by
  unfold rateTtl rateCacheTtlSeconds negativeRateCacheTtlSeconds
  split <;> norm_num

open RateLemmas

/-- Between the events of a call nothing else happens, and it is `getRate`. -/
theorem getRate_uninterrupted {w : RateWorker} {i : Nat} (hidle : w.call i = .idle) {env : Env}
    (hcache : ∀ source target asOf,
      env.rateCache source target asOf = w.live (source, target, asOf))
    (fromCurrency toCurrency : Text) (asOf : Date) :
    let key := (Platform.pyUpper fromCurrency, Platform.pyUpper toCurrency, asOf)
    let after := (w.run [getRateCall i fromCurrency toCurrency asOf, .ask i, .resume i]).call i
    (∃ result, after = .returned key w.clock result ∧
        exec (getRate env fromCurrency toCurrency asOf) w.store = .ok (result, w.store)) ∨
      ∃ signal, after = .raised key (.store signal) ∧
        exec (getRate env fromCurrency toCurrency asOf) w.store =
          .error (.raised internalError) := by
  intro key after
  cases hlive : w.live key with
  | some result =>
    refine .inl ⟨result, State.call_hit hidle hlive, ?_⟩
    rw [getRate, hcache, hlive]
    rfl
  | none =>
    have hafter : after = .ofAnswer key w.clock (lookupRate key w.store) :=
      State.call_miss hidle hlive
    have hexec : exec (getRate env fromCurrency toCurrency asOf) w.store = _ :=
      exec_getRate ((hcache _ _ _).trans hlive)
    cases hlookup : lookupRate key w.store with
    | ok result =>
      rw [hlookup] at hafter
      exact .inl ⟨result, hafter, hexec.trans (exec_orSignal_ok hlookup)⟩
    | error signal =>
      rw [hlookup] at hafter
      exact .inr ⟨signal, hafter, hexec.trans (exec_orSignal_error hlookup)⟩

/-- What a call returns is what the lookup found in the table at a moment no
longer before the start of the call than the lifetime of the result, and no later
than the return. No call raises a `KeyError`. -/
theorem get_rate_recent (now : Moment Db Rat) (events : List RateEvent) :
    (∀ (e : RateEvent) (i : Nat) (key : RateKey) (started : Rat) (result : RateResult),
      AnsweredBy lookupRate rateTtl ((coldWorker now).run events) e i key started result →
        ∃ m ∈ State.moments lookupRate rateTtl (coldWorker now) (events ++ [e]),
          started - (if result = none then 60 else 3600) ≤ m.clock ∧
            rateFromDb m.store key.1 key.2.1 key.2.2 = .ok result) ∧
      ∀ i key, ((coldWorker now).run events).call i ≠ .raised key .missingKey := by
  refine ⟨fun e i key started result h => ?_, fun i key => ?_⟩
  · obtain ⟨m, hm, hclock, hlookup⟩ := returned_recent rateTtl_nonneg now events e h
    refine ⟨m, hm, ?_, hlookup⟩
    cases result <;> exact hclock
  · exact no_missing_key rateTtl_nonneg now events

end

/-! ## A rate that has been replaced -/

namespace Ascii

/-- A table with one rate of a sol for a dollar. -/
def solAt (rate : Rat) : Db :=
  Function.update blank .exchangeRates ⟨[⟨60, "USD".toList, "PEN".toList, rate, 3⟩],
    List.nodup_singleton _⟩

def dollarToSol : RateKey := ("USD".toList, "PEN".toList, 12)

/-- The rate is looked up, and corrected before its call returns. -/
def correction : List RateEvent := [
  getRateCall 0 "usd".toList "pen".toList 12, .ask 0, .change (solAt (34 / 10)), .resume 0,
  .tick 10]

end Ascii

open Ascii in
/-- Ten seconds later a call still gets the old rate, which the table had at the
start of the run. -/
theorem get_rate_recent_corrected :
    ∃ m ∈ State.moments lookupRate rateTtl (coldWorker ⟨0, solAt (33 / 10)⟩)
        (correction ++ [getRateCall 1 "usd".toList "pen".toList 12]),
      10 - 3600 ≤ m.clock ∧
        rateFromDb m.store "USD".toList "PEN".toList 12 = .ok (some (33 / 10, 3)) := by
  have hanswered : AnsweredBy lookupRate rateTtl
      ((coldWorker ⟨0, solAt (33 / 10)⟩).run correction)
      (getRateCall 1 "usd".toList "pen".toList 12) 1 dollarToSol 10 (some (33 / 10, 3)) := by
    refine ⟨fun key' started' value' h => ?_, by decide +kernel⟩
    have hidle : ((coldWorker ⟨0, solAt (33 / 10)⟩).run correction).call 1 = .idle := by
      decide +kernel
    rw [hidle] at h
    cases h
  exact (get_rate_recent ⟨0, solAt (33 / 10)⟩ correction).1 _ 1 dollarToSol 10 _ hanswered

end ExpenseEngine
