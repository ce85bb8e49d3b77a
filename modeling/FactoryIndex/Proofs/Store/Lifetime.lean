import FactoryIndex.Proofs.Number.Range
import FactoryIndex.Proofs.Session.Setup
import FactoryIndex.Proofs.Store.Run

/-!
# The time to live that a store tells

A store has its time to live in three places: it tells one, and each of its maps goes by one of its own. Only to set
the time to live changes any of them, and to set it writes down what is told before the number of seconds is computed
that the maps go by. That computation fails for a number of seconds out of range, and then the maps stay as they are.

So the maps always go by one and the same time, which is at least the shortest one and in range, and they go by the
time that is told as long as that is in range.
-/

namespace FactoryIndex

namespace Store

/-- The bound of the times to live, in milliseconds, that can be counted in seconds. -/
def ttlBound : Int := Double.overflowBound * 1000

/-- The states that calls lead to from a new store, whatever the clocks show and whether a call fails or not. A clock
that cannot be read makes calls fail that need it. -/
inductive Attainable : Store → Prop
  | start {ttl : Value} {store : Store} (hcreate : create ttl = .ok store) : Attainable store
  | step {store : Store} (clock : Clock) (operation : Operation) (hstore : Attainable store) :
      Attainable (store.perform clock operation).1

theorem Reachable.attainable {store : Store} (hstore : store.Reachable) : store.Attainable := by
  induction hstore with
  | start hcreate => exact .start hcreate
  | step moment operation _ ih => exact .step moment.clock operation ih

variable {store : Store}

/-! ### Times in range -/

theorem minTtl_le_boundedTtl (ttl : Int) : minTtl ≤ boundedTtl ttl := by
  unfold boundedTtl
  split <;> omega

theorem minTtl_lt_ttlBound : minTtl < ttlBound := by decide +kernel

theorem boundedTtl_lt_ttlBound_iff {ttl : Int} : boundedTtl ttl < ttlBound ↔ ttl < ttlBound := by
  have hmin := minTtl_lt_ttlBound
  unfold boundedTtl
  split <;> omega

/-- A time to live that is out of range is none of the shortest ones. -/
theorem boundedTtl_of_ttlBound_le {ttl : Int} (hbound : ttlBound ≤ ttl) : boundedTtl ttl = ttl :=
  if_neg (minTtl_lt_ttlBound.trans_le hbound).not_gt

theorem natAbs_lt_iff {ttl : Int} (hpos : 0 ≤ ttl) : ttl.natAbs < Double.overflowBound * 1000 ↔ ttl < ttlBound := by
  unfold ttlBound
  generalize Double.overflowBound = bound
  omega

theorem fitsSeconds_boundedTtl_iff {ttl : Int} : fitsSeconds (boundedTtl ttl) = true ↔ ttl < ttlBound := by
  rw [fitsSeconds_iff, natAbs_lt_iff (boundedTtl_pos ttl).le, boundedTtl_lt_ttlBound_iff]

/-- Counted in seconds, a time in range is told apart from one that is not. -/
theorem seconds_ne_of_ttlBound_le {lifetime ttl : Int} (hpos : 0 ≤ lifetime) (hlifetime : lifetime < ttlBound)
    (hbound : ttlBound ≤ ttl) : seconds lifetime ≠ seconds ttl := by
  have hlt := (natAbs_lt_iff hpos).2 hlifetime
  have hle := le_of_not_gt (mt (natAbs_lt_iff (hpos.trans (hlifetime.le.trans hbound))).1 (not_lt_of_ge hbound))
  intro heq
  rw [seconds_eq_infinite_iff.2 ⟨rfl, hle⟩] at heq
  exact (seconds_eq_infinite_iff.1 heq).2.not_gt hlt

/-! ### One call -/

theorem create_eq_ok_iff {ttl : Value} :
    create ttl = .ok store ↔ ∃ n, ttl.toInt = .ok n ∧ n < ttlBound ∧ store = empty (boundedTtl n) := by
  unfold create
  cases hvalue : ttl.toInt with
  | error fault => simp
  | ok n =>
      simp only [Except.ok.injEq, exists_eq_left', ← fitsSeconds_boundedTtl_iff]
      split
      · next hfits => simp [hfits, eq_comm]
      · next hfits => simp [hfits]

theorem create_of_ttlBound_le {ttl : Value} {n : Int} (hvalue : ttl.toInt = .ok n) (hn : ttlBound ≤ n) :
    create ttl = .error .overflow := by
  simp only [create, hvalue, if_neg (mt fitsSeconds_boundedTtl_iff.1 (not_lt_of_ge hn))]

theorem setTtl_of_ttlBound_le {ttl : Value} {n : Int} (hvalue : ttl.toInt = .ok n) (hn : ttlBound ≤ n)
    (store : Store) : store.setTtl ttl = ({ store with ttl := n }, .error .overflow) := by
  have hbounded := boundedTtl_of_ttlBound_le hn
  have hfits := mt fitsSeconds_boundedTtl_iff.1 (not_lt_of_ge hn)
  rw [hbounded] at hfits
  simp only [setTtl, hvalue, hbounded, if_neg hfits]

theorem setTtl_cases (store : Store) (ttl : Value) :
    (∃ fault, ttl.toInt = .error fault ∧ store.setTtl ttl = (store, .error (fault.failure ttl))) ∨
      (∃ n, ttl.toInt = .ok n ∧ n < ttlBound ∧ (store.setTtl ttl).2 = .ok () ∧
        (store.setTtl ttl).1.lifetimes = ⟨boundedTtl n, boundedTtl n, boundedTtl n⟩) ∨
      ∃ n, ttl.toInt = .ok n ∧ ttlBound ≤ n ∧ store.setTtl ttl = ({ store with ttl := n }, .error .overflow) := by
  cases hn : ttl.toInt with
  | error fault =>
      left
      exact ⟨fault, rfl, by simp only [setTtl, hn]⟩
  | ok n =>
      right
      rcases lt_or_ge n ttlBound with hbound | hbound
      · left
        have hfits := fitsSeconds_boundedTtl_iff.2 hbound
        refine ⟨n, rfl, hbound, ?_, ?_⟩
        · simp only [setTtl, hn, hfits, if_true]
        · simp only [setTtl, hn, hfits, if_true, lifetimes]
      · exact .inr ⟨n, rfl, hbound, setTtl_of_ttlBound_le hn hbound store⟩

theorem lifetimes_removeFactory (store : Store) (name : String) :
    (store.removeFactory name).lifetimes = store.lifetimes := by
  have halone : (store.removeFactoryAlone name).lifetimes = store.lifetimes := by
    unfold removeFactoryAlone
    split
    · exact lifetimes_updateFile ..
    · rfl
  refine Eq.trans ?_ halone
  apply OrderedMap.view_foldl Store.lifetimes
  exact fun store item => lifetimes_updateFile ..

/-- No call but the one that sets it changes a time to live, whether it succeeds or fails. -/
theorem lifetimes_perform {operation : Operation} (hoperation : ∀ ttl, operation ≠ .setTtl ttl) (clock : Clock)
    (store : Store) : (store.perform clock operation).1.lifetimes = store.lifetimes := by
  cases operation with
  | upsertFactory factory => exact Timed.lifetimes_upsertFactory clock store factory
  | upsertTrait t => exact Timed.lifetimes_upsertTrait clock store t
  | addFactory factory => exact Timed.lifetimes_addFactory clock store factory
  | addTrait t => exact Timed.lifetimes_addTrait clock store t
  | findFactory name => exact Timed.lifetimes_findFactory clock store name
  | findTrait factory name => exact Timed.lifetimes_findTrait clock store factory name
  | removeFactory name => exact lifetimes_removeFactory store name
  | removeFile file => exact lifetimes_removeFile store file
  | replaceFile file factories traits modified =>
      exact Timed.lifetimes_replaceFile clock store file factories traits modified
  | cleanup => exact Timed.lifetimes_timed_cleanup clock store
  | setTtl ttl => exact absurd rfl (hoperation ttl)
  | shouldReindex | clear | setInitialized => rfl

/-! ### The invariant -/

end Store

/-- How the times to live of a store hang together. -/
structure Lifetimes.Coherent (lifetimes : Lifetimes) : Prop where
  minTtl_le_ttl : Store.minTtl ≤ lifetimes.ttl
  traits_eq_factories : lifetimes.traits = lifetimes.factories
  minTtl_le_factories : Store.minTtl ≤ lifetimes.factories
  factories_lt : lifetimes.factories < Store.ttlBound
  factories_eq_ttl : lifetimes.ttl < Store.ttlBound → lifetimes.factories = lifetimes.ttl

namespace Store

variable {store : Store}

/-- A time to live in range may be had in all three places. -/
theorem coherent_boundedTtl {n : Int} (hn : n < ttlBound) :
    Lifetimes.Coherent ⟨boundedTtl n, boundedTtl n, boundedTtl n⟩ where
  minTtl_le_ttl := minTtl_le_boundedTtl n
  traits_eq_factories := rfl
  minTtl_le_factories := minTtl_le_boundedTtl n
  factories_lt := boundedTtl_lt_ttlBound_iff.2 hn
  factories_eq_ttl _ := rfl

theorem coherent_setTtl (hstore : store.lifetimes.Coherent) (ttl : Value) :
    (store.setTtl ttl).1.lifetimes.Coherent := by
  obtain ⟨fault, -, hset⟩ | ⟨n, -, hn, -, hset⟩ | ⟨n, -, hn, hset⟩ := setTtl_cases store ttl
  · rw [hset]
    exact hstore
  · rw [hset]
    exact coherent_boundedTtl hn
  · -- Nothing is claimed of the maps and of a told time that is out of range.
    rw [hset]
    exact { hstore with
      minTtl_le_ttl := (minTtl_lt_ttlBound.trans_le hn).le
      factories_eq_ttl := fun hlt => absurd hn (not_le_of_gt hlt) }

theorem coherent_perform (hstore : store.lifetimes.Coherent) (clock : Clock) (operation : Operation) :
    (store.perform clock operation).1.lifetimes.Coherent := by
  by_cases hset : ∃ ttl, operation = .setTtl ttl
  · obtain ⟨ttl, rfl⟩ := hset
    exact coherent_setTtl hstore ttl
  · rw [lifetimes_perform (not_exists.1 hset) clock store]
    exact hstore

theorem Attainable.coherent (hstore : store.Attainable) : store.lifetimes.Coherent := by
  induction hstore with
  | start hcreate =>
      obtain ⟨n, -, hn, rfl⟩ := create_eq_ok_iff.1 hcreate
      exact coherent_boundedTtl hn
  | step clock operation _ ih => exact coherent_perform ih clock operation

/-! ### What is told and what is gone by -/

theorem setTtl_fails_iff (store : Store) (ttl : Value) :
    (∃ failure, (store.setTtl ttl).2 = .error failure) ↔ ∀ n, ttl.toInt = .ok n → ttlBound ≤ n := by
  obtain ⟨fault, hvalue, hset⟩ | ⟨n, hvalue, hn, hset, -⟩ | ⟨n, hvalue, hn, hset⟩ := setTtl_cases store ttl
  · simp [hvalue, hset]
  · simp [hvalue, hset, hn]
  · simp [hvalue, hset, hn]

/-- A time to live that cannot be set changes nothing but what is told, and that only if it is a number. -/
theorem setTtl_of_fails {ttl : Value} {failure : Failure} (hfails : (store.setTtl ttl).2 = .error failure) :
    (store.setTtl ttl).1 = { store with ttl := ttl.toInt.toOption.getD store.ttl } := by
  obtain ⟨fault, hvalue, hset⟩ | ⟨n, hvalue, -, hset, -⟩ | ⟨n, hvalue, hn, hset⟩ := setTtl_cases store ttl
  · rw [hset, hvalue]
    rfl
  · rw [hset] at hfails
    cases hfails
  · rw [hset, hvalue]
    rfl

theorem setTtl_eq_self_iff_of_fails {ttl : Value} {failure : Failure}
    (hfails : (store.setTtl ttl).2 = .error failure) :
    (store.setTtl ttl).1 = store ↔ ∀ n, ttl.toInt = .ok n → n = store.ttl := by
  rw [setTtl_of_fails hfails]
  cases ttl.toInt with
  | error fault => simp [Except.toOption]
  | ok n =>
      simp only [Except.toOption, Option.getD_some, Except.ok.injEq, forall_eq']
      exact ⟨congrArg Store.ttl, fun heq => by rw [heq]⟩

/-- **The time to live that is told is the one that definitions expire by, as long as it is in range.** Take any state
that calls lead to, those that fail included. The time that the statistics tell is at least the shortest one. Counted
in seconds, it is the lifetime of both maps just if it is below the bound, and then a definition has expired just if it
has outlived the time that is told. To set the time to live fails just if the value is no whole number below the bound;
a failure leaves everything as it was but for the time that is told, which becomes the number if the value is one. After
a success the time that is told is in range, whatever it was before. -/
theorem told_ttl_governs_in_range (hstore : store.Attainable) :
    minTtl ≤ store.stats.ttl ∧
      (seconds store.factories.lifetime = seconds store.stats.ttl ∧
        seconds store.traits.lifetime = seconds store.stats.ttl ↔ store.stats.ttl < ttlBound) ∧
      (store.stats.ttl < ttlBound → ∀ now,
        (∀ entry, store.factories.expired now entry = outlasts entry.written now store.stats.ttl) ∧
          ∀ entry, store.traits.expired now entry = outlasts entry.written now store.stats.ttl) ∧
      ∀ value,
        ((∃ failure, (store.setTtl value).2 = .error failure) ↔ ∀ n, value.toInt = .ok n → ttlBound ≤ n) ∧
          (∀ failure, (store.setTtl value).2 = .error failure →
            (store.setTtl value).1 = { store with ttl := value.toInt.toOption.getD store.stats.ttl } ∧
              ((store.setTtl value).1 = store ↔ ∀ n, value.toInt = .ok n → n = store.stats.ttl)) ∧
          ((store.setTtl value).2 = .ok () → (store.setTtl value).1.stats.ttl < ttlBound) := by
  have h := hstore.coherent
  have hfactories : store.stats.ttl < ttlBound → store.factories.lifetime = store.stats.ttl := h.factories_eq_ttl
  have htraits : store.traits.lifetime = store.factories.lifetime := h.traits_eq_factories
  refine ⟨h.minTtl_le_ttl, ⟨fun ⟨hsame, _⟩ => ?_, fun hlt => ?_⟩, fun hlt now => ⟨fun entry => ?_, fun entry => ?_⟩,
    fun value => ⟨setTtl_fails_iff store value, fun failure hfails => ⟨setTtl_of_fails hfails,
      setTtl_eq_self_iff_of_fails hfails⟩, fun hok => ?_⟩⟩
  · by_contra hge
    have hpos : 0 ≤ store.factories.lifetime := (by decide : (0 : Int) ≤ minTtl).trans h.minTtl_le_factories
    exact seconds_ne_of_ttlBound_le hpos h.factories_lt (not_lt.1 hge) hsame
  · rw [htraits, hfactories hlt]
    exact ⟨rfl, rfl⟩
  · rw [ExpiringMap.expired, hfactories hlt]
  · rw [ExpiringMap.expired, htraits, hfactories hlt]
  · obtain ⟨fault, -, hset⟩ | ⟨n, -, hn, -, hset⟩ | ⟨n, -, -, hset⟩ := setTtl_cases store value
    · rw [hset] at hok
      cases hok
    · have httl : (store.setTtl value).1.stats.ttl = boundedTtl n := congrArg Lifetimes.ttl hset
      rw [httl]
      exact boundedTtl_lt_ttlBound_iff.2 hn
    · rw [hset] at hok
      cases hok

/-- After a number out of range has been told, a value that is no number leaves the store as it is. -/
theorem told_ttl_governs_in_range_beyond :
    let store := ((empty 60000).perform ⟨0, 0⟩ (.setTtl (.int (10 ^ 400)))).1
    store.stats.ttl = 10 ^ 400 ∧
      ¬(seconds store.factories.lifetime = seconds store.stats.ttl ∧
        seconds store.traits.lifetime = seconds store.stats.ttl) ∧
      (store.setTtl (.text "soon")).1 = store ∧ (store.setTtl (.int 2000)).1.stats.ttl < ttlBound := by
  intro store
  have hnew : Attainable (empty 60000) := .start (by rfl : create (.int 60000) = .ok (empty 60000))
  have hstore : Attainable store := .step ⟨0, 0⟩ _ hnew
  have hbound : ttlBound ≤ 10 ^ 400 := by decide +kernel
  have httl : store.stats.ttl = 10 ^ 400 :=
    congrArg (fun result => result.1.stats.ttl) (setTtl_of_ttlBound_le rfl hbound (empty 60000))
  have hsoon : (Value.text "soon").toInt = .error (.notAnInteger "soon") := by rfl
  obtain ⟨-, hsame, -, hset⟩ := told_ttl_governs_in_range hstore
  refine ⟨httl, fun heq => absurd (hsame.1 heq) (not_lt_of_ge (hbound.trans_eq httl.symm)), ?_, ?_⟩
  · exact ((hset (.text "soon")).2.1 (.notAnInteger "soon") rfl).2.2 fun n hn => by
      rw [hsoon] at hn
      cases hn
  · exact (hset (.int 2000)).2.2 rfl

/-- A number beyond the range cannot be set, and it is told from then on, while definitions expire as before. -/
theorem told_ttl_out_of_range :
    let store := empty 60000
    let result := store.setTtl (.int (10 ^ 400))
    Attainable store ∧ result.2 = .error .overflow ∧ store.stats.ttl = 60000 ∧ result.1.stats.ttl = 10 ^ 400 ∧
      result.1.factories.lifetime = 60000 ∧ result.1.traits.lifetime = 60000 ∧
      seconds result.1.factories.lifetime ≠ seconds result.1.stats.ttl := by
  intro store result
  have hbound : ttlBound ≤ 10 ^ 400 := by decide +kernel
  have hresult : result = ({ store with ttl := 10 ^ 400 }, .error .overflow) :=
    setTtl_of_ttlBound_le rfl hbound (empty 60000)
  rw [hresult]
  exact ⟨.start (by rfl : create (.int 60000) = .ok (empty 60000)), rfl, rfl, rfl, rfl, rfl,
    seconds_ne_of_ttlBound_le (by decide) (by decide +kernel) hbound⟩

end Store

end FactoryIndex
