import EntityLinking.Proofs.Settings.Reading

/-!
# Overrides from an environment

Five keys of an environment override settings, one after the other.  If every key that is set means
something, the settings have what the keys mean and are otherwise as they were.  The first key that
means nothing ends the run with its fault, and the settings are those that the keys before it give.
-/

namespace EntityLinking

variable {env env' : Environment} {o p : Override} {os : List Override} {text : String}
  {s s' : Settings} {fault : ConfigFault}

/-- The environment in which no other keys are set than those of some overrides. -/
def Environment.only (env : Environment) (os : List Override) : Environment :=
  fun key => if key ∈ os.map Override.key then env key else none

namespace Override

/-! ## What an override sets -/

/-- What a setting that can be overridden holds. -/
inductive Held where
  | threshold (n : Option Int)
  | order (kinds : List FilterKind)
  | decoding (rule : Decoding)
deriving DecidableEq

/-- The overrides that set thresholds. -/
def thresholds : List Override :=
  [.minSupport, .bestSupport, .bestPrior]

/-- What the text of an override means for its setting. -/
inductive Means : Override → String → Held → Prop
  | threshold {o : Override} {text : String} {n : Int} (kind : o ∈ thresholds)
      (number : MeansNumber text n) : Means o text (.threshold (some n))
  | order {text : String} {kinds : List FilterKind} (stages : MeansOrder text kinds) :
      Means .filterOrder text (.order kinds)
  | decoding {text : String} {rule : Decoding} (name : Text.Trimmed text.toList rule.name.toList) :
      Means .decoding text (.decoding rule)

/-- The fault of a text that means nothing: it tells the key and the text of a threshold, the
first piece of a stage order that is neither blank nor the name of a stage, and a word that is
no rule for decoding. -/
inductive Refuses : Override → String → ConfigFault → Prop
  | threshold {o : Override} {text : String} (kind : o ∈ thresholds)
      (noNumber : ∀ n, ¬ MeansNumber text n) : Refuses o text (.invalidOverride o.key text)
  | order {text word : String} {pieces : List (List Char)} (cut : Pieces text.toList pieces)
      (first : FirstUnknown pieces word) : Refuses .filterOrder text (.unknownStage word)
  | decoding {text word : String} (trimmed : Text.Trimmed text.toList word.toList)
      (unknown : ∀ rule : Decoding, rule.name ≠ word) :
      Refuses .decoding text (.unknownDecoding word)

end Override

namespace Settings

open Override

/-- What the setting of an override holds. -/
def held (s : Settings) : Override → Held
  | .minSupport => .threshold s.filters.minSupport
  | .bestSupport => .threshold s.filters.bestSupport
  | .bestPrior => .threshold s.filters.bestPrior
  | .filterOrder => .order s.filters.order
  | .decoding => .decoding s.decoding

/-- The settings with the setting of one override changed. -/
def put (s : Settings) : Override → Held → Settings
  | .minSupport, .threshold n => { s with filters := { s.filters with minSupport := n } }
  | .bestSupport, .threshold n => { s with filters := { s.filters with bestSupport := n } }
  | .bestPrior, .threshold n => { s with filters := { s.filters with bestPrior := n } }
  | .filterOrder, .order kinds => { s with filters := { s.filters with order := kinds } }
  | .decoding, .decoding rule => { s with decoding := rule }
  | _, _ => s

/-- The settings that no override reaches are the same. -/
def SameElsewhere (s s' : Settings) : Prop :=
  s'.escapes = s.escapes ∧ s'.maxDistance = s.maxDistance

theorem eq_of_held (hheld : ∀ o, s'.held o = s.held o) (helsewhere : SameElsewhere s s') :
    s' = s := by
  obtain ⟨⟨min, bestSupport, bestPrior, order⟩, decoding, escapes, maxDistance⟩ := s
  obtain ⟨⟨min', bestSupport', bestPrior', order'⟩, decoding', escapes', maxDistance'⟩ := s'
  obtain ⟨rfl, rfl⟩ := helsewhere
  obtain rfl : min' = min := Held.threshold.inj (hheld .minSupport)
  obtain rfl : bestSupport' = bestSupport := Held.threshold.inj (hheld .bestSupport)
  obtain rfl : bestPrior' = bestPrior := Held.threshold.inj (hheld .bestPrior)
  obtain rfl : order' = order := Held.order.inj (hheld .filterOrder)
  obtain rfl : decoding' = decoding := Held.decoding.inj (hheld .decoding)
  rfl

theorem held_put_of_ne (s : Settings) (v : Held) (h : p ≠ o) : (s.put o v).held p = s.held p := by
  cases o <;> cases v <;> cases p <;> first | rfl | exact absurd rfl h

theorem sameElsewhere_put_iff {v : Held} : SameElsewhere (s.put o v) s' ↔ SameElsewhere s s' := by
  cases o <;> cases v <;> exact Iff.rfl

end Settings

namespace Override

open Settings

theorem held_put_of_means {v : Held} (h : Means o text v) (s : Settings) :
    (s.put o v).held o = v := by
  cases h with
  | @threshold o text n kind number => cases o <;> first | rfl | exact absurd kind (by decide)
  | order stages => rfl
  | decoding name => rfl

/-- What the text of an override is read as. -/
def reading (o : Override) (text : String) : Except ConfigFault Held :=
  match o with
  | .filterOrder => (readOrder text).map .order
  | .decoding => (Decoding.read text).map .decoding
  | threshold => (readThreshold threshold.key text).map fun n => .threshold (some n)

theorem reading_of_threshold (h : o ∈ thresholds) (text : String) :
    o.reading text = (readThreshold o.key text).map fun n => .threshold (some n) := by
  cases o <;> first | rfl | exact absurd h (by decide)

theorem assign_eq_map_put (o : Override) (text : String) (s : Settings) :
    o.assign text s = (o.reading text).map (s.put o) := by
  cases o with
  | minSupport => rw [assign, reading_of_threshold (by decide), Reading.map_map]; rfl
  | bestSupport => rw [assign, reading_of_threshold (by decide), Reading.map_map]; rfl
  | bestPrior => rw [assign, reading_of_threshold (by decide), Reading.map_map]; rfl
  | filterOrder => rw [assign, reading, Reading.map_map]; rfl
  | decoding => rw [assign, reading, Reading.map_map]; rfl

theorem eq_of_not_threshold (h : o ∉ thresholds) : o = .filterOrder ∨ o = .decoding := by
  cases o <;> first | exact absurd (by decide) h | decide

theorem means_threshold_iff (h : o ∈ thresholds) {v : Held} :
    Means o text v ↔ ∃ n, MeansNumber text n ∧ .threshold (some n) = v := by
  constructor
  · intro hmeans
    cases hmeans with
    | threshold _ number => exact ⟨_, number, rfl⟩
    | order _ => exact absurd h (by decide)
    | decoding _ => exact absurd h (by decide)
  · rintro ⟨n, hn, rfl⟩
    exact .threshold h hn

theorem means_order_iff {v : Held} :
    Means .filterOrder text v ↔ ∃ kinds, MeansOrder text kinds ∧ .order kinds = v := by
  constructor
  · intro hmeans
    cases hmeans with
    | threshold kind _ => exact absurd kind (by decide)
    | order stages => exact ⟨_, stages, rfl⟩
  · rintro ⟨kinds, hkinds, rfl⟩
    exact .order hkinds

theorem means_decoding_iff {v : Held} :
    Means .decoding text v ↔
      ∃ rule : Decoding, Text.Trimmed text.toList rule.name.toList ∧ .decoding rule = v := by
  constructor
  · intro hmeans
    cases hmeans with
    | threshold kind _ => exact absurd kind (by decide)
    | decoding name => exact ⟨_, name, rfl⟩
  · rintro ⟨rule, hrule, rfl⟩
    exact .decoding hrule

theorem reading_eq_ok_iff {v : Held} : o.reading text = .ok v ↔ Means o text v := by
  by_cases hthreshold : o ∈ thresholds
  · rw [reading_of_threshold hthreshold, Reading.map_eq_ok_iff, means_threshold_iff hthreshold]
    simp only [readThreshold_eq_ok_iff]
  · rcases eq_of_not_threshold hthreshold with rfl | rfl
    · rw [reading, Reading.map_eq_ok_iff, means_order_iff]
      simp only [readOrder_eq_ok_iff]
    · rw [reading, Reading.map_eq_ok_iff, means_decoding_iff]
      simp only [Decoding.read_eq_ok_iff]

theorem refuses_threshold_iff (h : o ∈ thresholds) :
    Refuses o text fault ↔ (∀ n, ¬ MeansNumber text n) ∧ fault = .invalidOverride o.key text := by
  constructor
  · intro hrefused
    cases hrefused with
    | threshold _ noNumber => exact ⟨noNumber, rfl⟩
    | order _ _ => exact absurd h (by decide)
    | decoding _ _ => exact absurd h (by decide)
  · rintro ⟨hno, rfl⟩
    exact .threshold h hno

theorem refuses_order_iff :
    Refuses .filterOrder text fault ↔
      ∃ pieces word, Pieces text.toList pieces ∧ FirstUnknown pieces word ∧
        fault = .unknownStage word := by
  constructor
  · intro hrefused
    cases hrefused with
    | threshold kind _ => exact absurd kind (by decide)
    | order cut first => exact ⟨_, _, cut, first, rfl⟩
  · rintro ⟨pieces, word, hcut, hfirst, rfl⟩
    exact .order hcut hfirst

theorem refuses_decoding_iff :
    Refuses .decoding text fault ↔
      ∃ word, Text.Trimmed text.toList word.toList ∧ (∀ rule : Decoding, rule.name ≠ word) ∧
        fault = .unknownDecoding word := by
  constructor
  · intro hrefused
    cases hrefused with
    | threshold kind _ => exact absurd kind (by decide)
    | decoding trimmed unknown => exact ⟨_, trimmed, unknown, rfl⟩
  · rintro ⟨word, hword, hunknown, rfl⟩
    exact .decoding hword hunknown

theorem reading_eq_error_iff : o.reading text = .error fault ↔ Refuses o text fault := by
  by_cases hthreshold : o ∈ thresholds
  · rw [reading_of_threshold hthreshold, Reading.map_eq_error_iff, readThreshold_eq_error_iff,
      refuses_threshold_iff hthreshold]
  · rcases eq_of_not_threshold hthreshold with rfl | rfl
    · rw [reading, Reading.map_eq_error_iff, readOrder_eq_error_iff, refuses_order_iff]
    · rw [reading, Reading.map_eq_error_iff, Decoding.read_eq_error_iff, refuses_decoding_iff]

/-- A text means something or is refused, and not both. -/
theorem not_refuses_of_means {v : Held} (h : Means o text v) : ¬ Refuses o text fault := by
  intro hrefused
  have hok := reading_eq_ok_iff.mpr h
  rw [reading_eq_error_iff.mpr hrefused] at hok
  simp at hok

/-- An override puts in place what its text means. -/
theorem assign_eq_ok_iff : o.assign text s = .ok s' ↔ ∃ v, Means o text v ∧ s.put o v = s' := by
  rw [assign_eq_map_put, Reading.map_eq_ok_iff]
  simp only [reading_eq_ok_iff]

theorem assign_eq_error_iff : o.assign text s = .error fault ↔ Refuses o text fault := by
  rw [assign_eq_map_put, Reading.map_eq_error_iff, reading_eq_error_iff]

/-! ## Runs -/

/-- A key that is set gives a setting what its text means, and one that is not leaves it alone. -/
def Settled (env : Environment) (o : Override) (old new : Held) : Prop :=
  match env o.key with
  | none => new = old
  | some text => Means o text new

theorem Settled.again {old new : Held} (h : Settled env o old new) : Settled env o new new := by
  unfold Settled at h ⊢
  split at h
  next => rfl
  next => exact h

theorem Settled.means {old new : Held} (h : Settled env o old new) (hkey : env o.key = some text) :
    Means o text new := by
  rw [Settled, hkey] at h
  exact h

theorem applyList_cons_of_none (h : env o.key = none) (s : Settings) :
    applyList env (o :: os) s = applyList env os s := by
  rw [applyList, h]

theorem applyList_cons_of_means {v : Held} (h : env o.key = some text) (hv : Means o text v)
    (s : Settings) : applyList env (o :: os) s = applyList env os (s.put o v) := by
  rw [applyList, h]
  simp only [assign_eq_ok_iff.mpr ⟨v, hv, rfl⟩]

theorem applyList_cons_of_refuses (h : env o.key = some text) (hfault : Refuses o text fault)
    (s : Settings) : applyList env (o :: os) s = (s, .error fault) := by
  rw [applyList, h]
  simp only [assign_eq_error_iff.mpr hfault]

/-- The three ways in which a run takes its next override. -/
theorem next_cases (env : Environment) (o : Override) :
    env o.key = none ∨ (∃ text v, env o.key = some text ∧ Means o text v) ∨
      ∃ text fault, env o.key = some text ∧ Refuses o text fault := by
  cases hkey : env o.key with
  | none => exact Or.inl rfl
  | some text =>
      cases hread : o.reading text with
      | ok v => exact Or.inr (Or.inl ⟨text, v, rfl, reading_eq_ok_iff.mp hread⟩)
      | error fault => exact Or.inr (Or.inr ⟨text, fault, rfl, reading_eq_error_iff.mp hread⟩)

/-- What a run comes to that no key ends. -/
structure Overridden (env : Environment) (os : List Override) (s s' : Settings) : Prop where
  set : ∀ o ∈ os, Settled env o (s.held o) (s'.held o)
  kept : ∀ o ∉ os, s'.held o = s.held o
  elsewhere : SameElsewhere s s'

theorem Overridden.cons_of_none (h : Overridden env os s s') (hkey : env o.key = none)
    (hnew : o ∉ os) : Overridden env (o :: os) s s' := by
  refine ⟨?_, fun p hp => h.kept p (fun hmem => hp (List.mem_cons_of_mem _ hmem)), h.elsewhere⟩
  intro p hp
  rcases List.mem_cons.mp hp with rfl | hp
  · rw [Settled, hkey]
    exact h.kept p hnew
  · exact h.set p hp

theorem Overridden.of_cons_of_none (h : Overridden env (o :: os) s s') (hkey : env o.key = none) :
    Overridden env os s s' := by
  refine ⟨fun p hp => h.set p (List.mem_cons_of_mem _ hp), ?_, h.elsewhere⟩
  intro p hp
  by_cases hpo : p = o
  · subst hpo
    have hset := h.set p List.mem_cons_self
    rw [Settled, hkey] at hset
    exact hset
  · exact h.kept p (by simp [hpo, hp])

theorem Overridden.cons_of_means {v : Held} (h : Overridden env os (s.put o v) s')
    (hkey : env o.key = some text) (hv : Means o text v) (hnew : o ∉ os) :
    Overridden env (o :: os) s s' := by
  refine ⟨?_, ?_, sameElsewhere_put_iff.mp h.elsewhere⟩
  · intro p hp
    rcases List.mem_cons.mp hp with rfl | hp
    · rw [Settled, hkey, h.kept p hnew, held_put_of_means hv]
      exact hv
    · have hne : p ≠ o := fun heq => hnew (heq ▸ hp)
      rw [← held_put_of_ne s v hne]
      exact h.set p hp
  · intro p hp
    rw [List.mem_cons, not_or] at hp
    rw [h.kept p hp.2, held_put_of_ne s v hp.1]

theorem Overridden.of_cons_of_some (h : Overridden env (o :: os) s s')
    (hkey : env o.key = some text) (hnew : o ∉ os) :
    Means o text (s'.held o) ∧ Overridden env os (s.put o (s'.held o)) s' := by
  have hmeans : Means o text (s'.held o) := (h.set o List.mem_cons_self).means hkey
  refine ⟨hmeans, ?_, ?_, sameElsewhere_put_iff.mpr h.elsewhere⟩
  · intro p hp
    have hne : p ≠ o := fun heq => hnew (heq ▸ hp)
    rw [held_put_of_ne s _ hne]
    exact h.set p (List.mem_cons_of_mem _ hp)
  · intro p hp
    by_cases hpo : p = o
    · subst hpo
      rw [held_put_of_means hmeans]
    · rw [held_put_of_ne s _ hpo]
      exact h.kept p (by simp [hpo, hp])

theorem applyList_eq_ok_iff (hnodup : os.Nodup) :
    applyList env os s = (s', .ok ()) ↔ Overridden env os s s' := by
  induction os generalizing s with
  | nil =>
      constructor
      · intro h
        obtain rfl : s = s' := congrArg Prod.fst h
        exact ⟨by simp, by simp, rfl, rfl⟩
      · intro h
        rw [eq_of_held (fun o => h.kept o List.not_mem_nil) h.elsewhere]
        rfl
  | cons o os ih =>
      obtain ⟨hnew, hnodup⟩ := List.nodup_cons.mp hnodup
      constructor
      · intro h
        rcases next_cases env o with hkey | ⟨text, v, hkey, hv⟩ | ⟨text, fault, hkey, hfault⟩
        · rw [applyList_cons_of_none hkey] at h
          exact ((ih hnodup).mp h).cons_of_none hkey hnew
        · rw [applyList_cons_of_means hkey hv] at h
          exact ((ih hnodup).mp h).cons_of_means hkey hv hnew
        · rw [applyList_cons_of_refuses hkey hfault] at h
          simp at h
      · intro h
        cases hkey : env o.key with
        | none =>
            rw [applyList_cons_of_none hkey]
            exact (ih hnodup).mpr (h.of_cons_of_none hkey)
        | some text =>
            obtain ⟨hmeans, hrest⟩ := h.of_cons_of_some hkey hnew
            rw [applyList_cons_of_means hkey hmeans]
            exact (ih hnodup).mpr hrest

/-- A run goes on with the settings that the overrides before gave. -/
theorem applyList_append (h : applyList env os s = (s', .ok ())) (later : List Override) :
    applyList env (os ++ later) s = applyList env later s' := by
  induction os generalizing s with
  | nil =>
      obtain rfl : s = s' := congrArg Prod.fst h
      rfl
  | cons o os ih =>
      rw [List.cons_append]
      rcases next_cases env o with hkey | ⟨text, v, hkey, hv⟩ | ⟨text, fault, hkey, hfault⟩
      · rw [applyList_cons_of_none hkey] at h ⊢
        exact ih h
      · rw [applyList_cons_of_means hkey hv] at h ⊢
        exact ih h
      · rw [applyList_cons_of_refuses hkey hfault] at h
        simp at h

/-- A run fails at the first override that is refused. -/
theorem applyList_eq_error_iff :
    applyList env os s = (s', .error fault) ↔
      ∃ earlier o later text, os = earlier ++ o :: later ∧ env o.key = some text ∧
        Refuses o text fault ∧ applyList env earlier s = (s', .ok ()) := by
  constructor
  · intro h
    induction os generalizing s with
    | nil => simp [applyList] at h
    | cons o os ih =>
        rcases next_cases env o with hkey | ⟨text, v, hkey, hv⟩ | ⟨text, fault', hkey, hfault⟩
        · rw [applyList_cons_of_none hkey] at h
          obtain ⟨earlier, p, later, text, rfl, hp, hfault, hearlier⟩ := ih h
          exact ⟨o :: earlier, p, later, text, rfl, hp, hfault,
            (applyList_cons_of_none hkey s).trans hearlier⟩
        · rw [applyList_cons_of_means hkey hv] at h
          obtain ⟨earlier, p, later, text, rfl, hp, hfault, hearlier⟩ := ih h
          exact ⟨o :: earlier, p, later, text, rfl, hp, hfault,
            (applyList_cons_of_means hkey hv s).trans hearlier⟩
        · rw [applyList_cons_of_refuses hkey hfault] at h
          obtain ⟨rfl, hsame⟩ := Prod.mk.inj h
          obtain rfl : fault' = fault := Except.error.inj hsame
          exact ⟨[], o, os, text, rfl, hkey, hfault, rfl⟩
  · rintro ⟨earlier, o, later, text, rfl, hkey, hfault, hearlier⟩
    rw [applyList_append hearlier, applyList_cons_of_refuses hkey hfault]

theorem applyList_congr (h : ∀ o ∈ os, env o.key = env' o.key) (s : Settings) :
    applyList env os s = applyList env' os s := by
  induction os generalizing s with
  | nil => rfl
  | cons o os ih =>
      have hrest := ih fun p hp => h p (List.mem_cons_of_mem _ hp)
      simp only [applyList, h o List.mem_cons_self, hrest]

theorem applyList_append_of_unset {later : List Override} (h : ∀ o ∈ later, env o.key = none)
    (s : Settings) : applyList env (os ++ later) s = applyList env os s := by
  induction os generalizing s with
  | nil =>
      induction later with
      | nil => rfl
      | cons o later ih =>
          rw [List.nil_append, applyList_cons_of_none (h o List.mem_cons_self)]
          exact ih fun p hp => h p (List.mem_cons_of_mem _ hp)
  | cons o os ih => simp only [List.cons_append, applyList, ih]

theorem nodup_all : all.Nodup := by
  decide

theorem mem_all (o : Override) : o ∈ all := by
  cases o <;> decide

theorem key_injective : Function.Injective key := by
  intro o p h
  cases o <;> cases p <;> first | rfl | exact absurd h (by decide)

/-- A run in which only the first keys are set is a run of the first overrides. -/
theorem override_only {earlier later : List Override} (h : all = earlier ++ later) (s : Settings) :
    s.override (env.only earlier) = applyList env earlier s := by
  have hnodup : (earlier ++ later).Nodup := h ▸ nodup_all
  have hset : ∀ o ∈ earlier, env.only earlier o.key = env o.key :=
    fun o ho => if_pos (List.mem_map_of_mem ho)
  have hunset : ∀ o ∈ later, env.only earlier o.key = none := by
    intro o ho
    refine if_neg fun hmem => ?_
    obtain ⟨p, hp, hkey⟩ := List.mem_map.mp hmem
    exact (List.nodup_append.mp hnodup).2.2 p hp o ho (key_injective hkey)
  rw [Settings.override, h, applyList_append_of_unset hunset, applyList_congr hset]

theorem override_eq_ok_iff :
    s.override env = (s', .ok ()) ↔
      (∀ o, Settled env o (s.held o) (s'.held o)) ∧ SameElsewhere s s' := by
  rw [Settings.override, applyList_eq_ok_iff nodup_all]
  constructor
  · intro h
    exact ⟨fun o => h.set o (mem_all o), h.elsewhere⟩
  · rintro ⟨hset, helsewhere⟩
    exact ⟨fun o _ => hset o, fun o ho => absurd (mem_all o) ho, helsewhere⟩

/-- A stage order that is refused is not put in place, not even in part. -/
theorem order_of_refuses (hkey : env filterOrder.key = some text)
    (hfault : Refuses .filterOrder text fault) :
    (s.override env).1.filters.order = s.filters.order := by
  cases hrun : s.override env with
  | mk s' result =>
      cases result with
      | ok _ =>
          have hset := (override_eq_ok_iff.mp hrun).1 .filterOrder
          exact absurd hfault (not_refuses_of_means (hset.means hkey))
      | error fault' =>
          obtain ⟨earlier, o, later, text', hall, -, -, hearlier⟩ := applyList_eq_error_iff.mp hrun
          have hnodup : earlier.Nodup := (List.nodup_append.mp (hall ▸ nodup_all)).1
          have hdone := (applyList_eq_ok_iff hnodup).mp hearlier
          have hnot : .filterOrder ∉ earlier := fun hmem =>
            not_refuses_of_means ((hdone.set _ hmem).means hkey) hfault
          exact Held.order.inj (hdone.kept _ hnot)

/-- A run ends well just when every key that is set means something.  The settings are then what the
keys mean and otherwise as they were, and the same run changes nothing about them.  A run that fails
has the fault of the first key that is refused and the settings that the keys before it give; a
stage order that is refused in any piece, be it the last, leaves the order as it was. -/
theorem override_exact (s : Settings) (env : Environment) :
    ((∃ s', s.override env = (s', .ok ())) ↔
      ∀ o text, env o.key = some text → ∃ v, Means o text v) ∧
    (∀ s', s.override env = (s', .ok ()) ↔
      (∀ o, Settled env o (s.held o) (s'.held o)) ∧ SameElsewhere s s') ∧
    (∀ s', s.override env = (s', .ok ()) → s'.override env = (s', .ok ())) ∧
    (∀ s' fault, s.override env = (s', .error fault) ↔
      ∃ earlier o later text, all = earlier ++ o :: later ∧ env o.key = some text ∧
        Refuses o text fault ∧ s.override (env.only earlier) = (s', .ok ())) ∧
    ∀ text fault, env filterOrder.key = some text → Refuses .filterOrder text fault →
      (s.override env).1.filters.order = s.filters.order := by
  refine ⟨?_, fun s' => override_eq_ok_iff, ?_, ?_, ?_⟩
  · constructor
    · rintro ⟨s', h⟩ o text hkey
      exact ⟨_, ((override_eq_ok_iff.mp h).1 o).means hkey⟩
    · intro h
      cases hrun : s.override env with
      | mk s' result =>
          cases result with
          | ok _ => exact ⟨s', rfl⟩
          | error fault =>
              obtain ⟨earlier, o, later, text, -, hkey, hfault, -⟩ := applyList_eq_error_iff.mp hrun
              obtain ⟨v, hv⟩ := h o text hkey
              exact absurd hfault (not_refuses_of_means hv)
  · intro s' h
    rw [override_eq_ok_iff] at h ⊢
    exact ⟨fun o => (h.1 o).again, rfl, rfl⟩
  · intro s' fault
    rw [Settings.override, applyList_eq_error_iff]
    constructor
    · rintro ⟨earlier, o, later, text, hall, hkey, hfault, hearlier⟩
      exact ⟨earlier, o, later, text, hall, hkey, hfault, (override_only hall s).trans hearlier⟩
    · rintro ⟨earlier, o, later, text, hall, hkey, hfault, hearlier⟩
      exact ⟨earlier, o, later, text, hall, hkey, hfault,
        (override_only hall s).symm.trans hearlier⟩
  · intro text fault hkey hfault
    exact order_of_refuses hkey hfault

/-- The last piece of a stage order is unknown: the threshold before it is set, and nothing of the
order is.  The keys before it end well, and the same run changes nothing about what they gave. -/
theorem override_exact_last_piece :
    let env : Environment := fun key =>
      if key = minSupport.key then some " +7 "
      else if key = filterOrder.key then some " best_k_prior ,, oldest "
      else none
    let earlier : List Override := [.minSupport, .bestSupport, .bestPrior]
    let after : Settings := { filters := { minSupport := some 7 } }
    Refuses .filterOrder " best_k_prior ,, oldest " (.unknownStage "oldest") ∧
      after.override (env.only earlier) = (after, .ok ()) ∧
      ({} : Settings).override env = (after, .error (.unknownStage "oldest")) ∧
      (({} : Settings).override env).1.filters.order = ({} : Settings).filters.order := by
  intro env earlier after
  have hprior : Text.Trimmed " best_k_prior ".toList FilterKind.bestPrior.name.toList :=
    Text.trimmed_iff.mpr rfl
  have hunknown : ∀ kind : FilterKind, kind.name ≠ "oldest" := by
    rintro (_ | _ | _) <;> decide
  have hrefused : Refuses .filterOrder " best_k_prior ,, oldest " (.unknownStage "oldest") :=
    .order (pieces_iff.mpr rfl) ⟨[" best_k_prior ".toList, []], " oldest ".toList, [], [.bestPrior],
      rfl, .stage hprior (.blank (Text.trimmed_iff.mpr rfl) .nil), Text.trimmed_iff.mpr rfl,
      by decide, hunknown⟩
  have hearlier : ({} : Settings).override (env.only earlier) = (after, .ok ()) := rfl
  have hagain := (override_exact {} (env.only earlier)).2.2.1 after hearlier
  obtain ⟨-, -, -, hfailed, horder⟩ := override_exact {} env
  exact ⟨hrefused, hagain,
    (hfailed after _).mpr ⟨earlier, .filterOrder, [.decoding], _, rfl, rfl, hrefused, hearlier⟩,
    horder _ _ rfl hrefused⟩

end Override
end EntityLinking
