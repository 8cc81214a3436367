import EntityLinking.Proofs.Service.Filtering

/-!
# Spellings of URIs

The filters look at supports and priors, the graph and the scores at decoded URIs.  Two indexes
whose lists agree in these, place by place, are therefore answered from with the same places in the
same order and the same scores, and each answer has the URIs as its own index spells them.
Candidates of one mention that decode to the same vertex are kept apart by their places.
-/

namespace EntityLinking

/-- Two candidates that may differ in how their URIs are spelled and in nothing else. -/
structure Entity.Respelled (decoder : Decoder) (e e' : Entity) : Prop where
  support_eq : e'.support = e.support
  prior_eq : e'.prior = e.prior
  decode_eq : decoder.decode e'.uri = decoder.decode e.uri

namespace CandidateIndex

/-- Two indexes of the same forms whose lists agree place by place but for the spelling of URIs. -/
def Respelled (decoder : Decoder) (index index' : CandidateIndex) : Prop :=
  ∀ surface, Option.Rel (List.Forall₂ (Entity.Respelled decoder)) (index.find? surface)
    (index'.find? surface)

theorem Respelled.listed {decoder : Decoder} {index index' : CandidateIndex}
    (h : index.Respelled decoder index') (surface : String) :
    List.Forall₂ (Entity.Respelled decoder) (index.listed surface) (index'.listed surface) := by
  have hsurface := h surface
  rw [CandidateIndex.listed, CandidateIndex.listed]
  generalize index.find? surface = es, index'.find? surface = es' at hsurface
  cases hsurface with
  | none => exact .nil
  | some hes => exact hes

end CandidateIndex

/-! ## Answers by places -/

/-- A place in a candidate list with a score. -/
structure Rank (σ : Type) where
  place : Nat
  score : σ

/-- A resolution of a mention by the candidate at some place, with some score. -/
structure Rank.Holds {σ : Type} (m : Mention) (es : List Entity) (rank : Rank σ)
    (r : Resolution σ) : Prop where
  mention_eq : r.mention = m
  entity_eq : es[rank.place]? = some r.entity
  score_eq : r.score = rank.score

/-- Two tables of the same mentions.  For each the two have the same ranks, at different places, of
the candidates that the one index and the other list for its form. -/
def Table.Respelled {σ : Type} (index index' : CandidateIndex) (t t' : Table σ) : Prop :=
  List.Forall₂ (fun row row' => row'.mention = row.mention ∧
    ∃ ranks : List (Rank σ), (ranks.map Rank.place).Nodup ∧
      List.Forall₂ (Rank.Holds row.mention (index.listed row.mention.surface)) ranks row.value ∧
      List.Forall₂ (Rank.Holds row.mention (index'.listed row.mention.surface)) ranks row'.value)
    t.rows t'.rows

/-! ## Lists in two spellings -/

/-- A candidate at a place of two lists. -/
structure Spelling (decoder : Decoder) where
  place : Nat
  left : Entity
  right : Entity
  respelled : Entity.Respelled decoder left right

namespace Spelling

variable {decoder : Decoder} {es es' : List Entity} {zs : List (Spelling decoder)}

theorem exists_spellings (h : List.Forall₂ (Entity.Respelled decoder) es es') (n : Nat) :
    ∃ zs : List (Spelling decoder), zs.map left = es ∧ zs.map right = es' ∧
      zs.map place = List.range' n es.length := by
  induction h generalizing n with
  | nil => exact ⟨[], rfl, rfl, rfl⟩
  | @cons e e' rest rest' he hrest ih =>
      obtain ⟨zs, hleft, hright, hplace⟩ := ih (n + 1)
      exact ⟨⟨n, e, e', he⟩ :: zs, congrArg (e :: ·) hleft, congrArg (e' :: ·) hright,
        congrArg (n :: ·) hplace⟩

/-- A candidate that a list was paired up with stands at its place. -/
theorem getElem?_place {β : Type} {f : Spelling decoder → β} {xs : List β} {n : Nat}
    (hf : zs.map f = xs) (hplace : zs.map place = List.range' 0 n) {z : Spelling decoder}
    (hz : z ∈ zs) : xs[z.place]? = some (f z) := by
  obtain ⟨i, hi⟩ := List.getElem?_of_mem hz
  have hat : (zs.map place)[i]? = some z.place := by
    rw [List.getElem?_map, hi]
    rfl
  obtain rfl : i = z.place := by
    rw [hplace] at hat
    obtain ⟨hlt, hat⟩ := List.getElem?_eq_some_iff.mp hat
    simpa using hat
  rw [← hf, List.getElem?_map, hi]
  rfl

variable (zs)

/-- A stage chooses the same places of both lists. -/
theorem exists_select_stage (stage : Stage) :
    ∃ kept : List (Spelling decoder), kept.Sublist zs ∧
      stage.select (zs.map left) = kept.map left ∧
      stage.select (zs.map right) = kept.map right := by
  have hsupport : (fun z : Spelling decoder => z.right.support) = fun z => z.left.support :=
    funext fun z => z.respelled.support_eq
  have hprior : (fun z : Spelling decoder => z.right.prior) = fun z => z.left.prior :=
    funext fun z => z.respelled.prior_eq
  cases stage with
  | minSupport least =>
      refine ⟨zs.filter fun z => decide (least ≤ z.left.support), List.filter_sublist, ?_, ?_⟩
      · exact List.filter_map
      · have hdemand : (fun e : Entity => decide (least ≤ e.support)) ∘ right =
            fun z : Spelling decoder => decide (least ≤ z.left.support) := by
          funext z
          simp only [Function.comp_apply, z.respelled.support_eq]
        rw [Stage.select, List.filter_map, hdemand]
  | bestSupport k =>
      refine ⟨keepBest (fun z => z.left.support) k zs, keepBest_sublist _ k zs, ?_, ?_⟩
      · exact keepBest_map Entity.support left k zs
      · rw [← hsupport]
        exact keepBest_map Entity.support right k zs
  | bestPrior k =>
      refine ⟨keepBest (fun z => z.left.prior) k zs, keepBest_sublist _ k zs, ?_, ?_⟩
      · exact keepBest_map Entity.prior left k zs
      · rw [← hprior]
        exact keepBest_map Entity.prior right k zs

/-- A pipeline chooses the same places of both lists. -/
theorem exists_select (p : Pipeline) :
    ∃ kept : List (Spelling decoder), kept.Sublist zs ∧
      p.select (zs.map left) = kept.map left ∧ p.select (zs.map right) = kept.map right := by
  obtain ⟨stages⟩ := p
  simp only [Pipeline.select]
  induction stages generalizing zs with
  | nil => exact ⟨zs, List.Sublist.refl zs, rfl, rfl⟩
  | cons stage rest ih =>
      obtain ⟨chosen, hchosen, hleft, hright⟩ := exists_select_stage zs stage
      obtain ⟨kept, hkept, hleft', hright'⟩ := ih chosen
      refine ⟨kept, hkept.trans hchosen, ?_, ?_⟩
      · rw [List.foldl_cons, hleft, hleft']
      · rw [List.foldl_cons, hright, hright']

end Spelling

namespace Service

variable {decoder : Decoder} {g : Subgraph} {mentions : List Mention} {k : Nat}

/-! ## The same places in both spellings -/

variable {index index' : CandidateIndex}

/-- The scores of vertices put the places of both lists into the same order. -/
theorem exists_leading_spellings (g : Subgraph) (k : Nat) (kept : List (Spelling decoder)) :
    ∃ ranked : List (Spelling decoder), ranked.Subperm kept ∧
      leading decoder g k (kept.map Spelling.left) = ranked.map Spelling.left ∧
      leading decoder g k (kept.map Spelling.right) = ranked.map Spelling.right := by
  have hscore :
      (fun z : Spelling decoder => DegreeCentrality.score g (decoder.decode z.right.uri)) =
        fun z => DegreeCentrality.score g (decoder.decode z.left.uri) := by
    funext z
    rw [z.respelled.decode_eq]
  refine ⟨(Ranked.sortDescending
    (fun z => DegreeCentrality.score g (decoder.decode z.left.uri)) kept).take k, ?_, ?_, ?_⟩
  · exact (List.take_sublist k _).subperm.trans (List.mergeSort_perm kept _).subperm
  · rw [leading, Ranked.sortDescending_map, List.map_take]
  · rw [leading, Ranked.sortDescending_map, hscore, List.map_take]

theorem respelled_answer_nil (index index' : CandidateIndex) (mentions : List Mention) :
    Table.Respelled index index' (answer [] mentions : Table Rat) (answer [] mentions) := by
  rw [Table.Respelled, answer_nil_rows, List.forall₂_map_left_iff, List.forall₂_map_right_iff,
    List.forall₂_same]
  intro m hm
  exact ⟨rfl, [], List.nodup_nil, .nil, .nil⟩

section TwoIndexes

variable (h : index.Respelled decoder index') (filters : Pipeline) (kg : KnowledgeGraph)
variable (maxDistance : Nat)

include h

/-- The survivors of a form over two indexes that differ in spelling stand at the same places. -/
theorem exists_survivors_spellings (surface : String) :
    ∃ kept : List (Spelling decoder), (kept.map Spelling.place).Nodup ∧
      (∀ z ∈ kept, (index.listed surface)[z.place]? = some z.left ∧
        (index'.listed surface)[z.place]? = some z.right) ∧
      (pathService index.lookup filters decoder kg maxDistance).survivors surface =
        kept.map Spelling.left ∧
      (pathService index'.lookup filters decoder kg maxDistance).survivors surface =
        kept.map Spelling.right := by
  obtain ⟨zs, hleft, hright, hplace⟩ := Spelling.exists_spellings (h.listed surface) 0
  obtain ⟨kept, hkept, hselect, hselect'⟩ := Spelling.exists_select zs filters
  refine ⟨kept, ?_, ?_, ?_, ?_⟩
  · have hnodup : (zs.map Spelling.place).Nodup := hplace ▸ List.nodup_range'
    exact hnodup.sublist (hkept.map Spelling.place)
  · intro z hz
    have hz := hkept.subset hz
    exact ⟨Spelling.getElem?_place hleft hplace hz, Spelling.getElem?_place hright hplace hz⟩
  · rw [survivors_pathService, ← hselect, hleft]
  · rw [survivors_pathService, ← hselect', hright]

theorem uris_senses_respelled (mentions : List Mention) :
    ((pathService index.lookup filters decoder kg maxDistance).senses mentions).uris =
      ((pathService index'.lookup filters decoder kg maxDistance).senses mentions).uris := by
  rw [SenseRows.uris, SenseRows.uris, senses, senses, List.map_map, List.map_map]
  apply List.map_congr_left
  intro m hm
  obtain ⟨kept, -, -, hleft, hright⟩ :=
    exists_survivors_spellings h filters kg maxDistance m.surface
  simp only [Function.comp_apply, hleft, hright, List.map_map]
  apply List.map_congr_left
  intro z hz
  exact z.respelled.decode_eq.symm

/-- The tables of the scores in one subgraph have the same ranks. -/
theorem respelled_answer_best (mentions : List Mention) (g : Subgraph) (k : Nat) :
    Table.Respelled index index'
      (answer (DegreeCentrality.best
        ((pathService index.lookup filters decoder kg maxDistance).senses mentions) g k) mentions)
      (answer (DegreeCentrality.best
        ((pathService index'.lookup filters decoder kg maxDistance).senses mentions) g k)
        mentions) := by
  rw [Table.Respelled, rows_answer_best, rows_answer_best, List.forall₂_map_left_iff,
    List.forall₂_map_right_iff, List.forall₂_same]
  intro m hm
  obtain ⟨kept, hnodup, hplaces, hleft, hright⟩ :=
    exists_survivors_spellings h filters kg maxDistance m.surface
  obtain ⟨ranked, hranked, hlead, hlead'⟩ := exists_leading_spellings g k kept
  have hplaces : ∀ z ∈ ranked, (index.listed m.surface)[z.place]? = some z.left ∧
      (index'.listed m.surface)[z.place]? = some z.right :=
    fun z hz => hplaces z (hranked.subset hz)
  simp only [decoder_pathService, hleft, hright, hlead, hlead', List.map_map, true_and]
  -- places are kept apart although two of them may have the same vertex and so the same score
  refine ⟨ranked.map fun z =>
    ⟨z.place, DegreeCentrality.score g (decoder.decode z.left.uri)⟩, ?_, ?_, ?_⟩
  · obtain ⟨part, hperm, hsub⟩ := hranked
    rw [List.map_map]
    exact (hperm.map Spelling.place).nodup_iff.mp (hnodup.sublist (hsub.map Spelling.place))
  · rw [List.forall₂_map_left_iff, List.forall₂_map_right_iff, List.forall₂_same]
    intro z hz
    exact ⟨rfl, (hplaces z hz).1, rfl⟩
  · rw [List.forall₂_map_left_iff, List.forall₂_map_right_iff, List.forall₂_same]
    intro z hz
    exact ⟨rfl, (hplaces z hz).2, congrArg (DegreeCentrality.score g) z.respelled.decode_eq⟩

/-- Services over indexes that differ in spelling answer a request alike, and their tables have the
same ranks. -/
theorem corresponds_of_respelled (mentions : List Mention) (k : Nat) :
    Corresponds (Table.Respelled index index')
      (pathService index.lookup filters decoder kg maxDistance)
      (pathService index'.lookup filters decoder kg maxDistance) mentions k := by
  constructor
  · intro surface
    exact (outage?_lookup index surface).trans (outage?_lookup index' surface).symm
  · intro surface
    obtain ⟨kept, -, -, hleft, hright⟩ :=
      exists_survivors_spellings h filters kg maxDistance surface
    rw [hleft, hright, List.map_eq_nil_iff, List.map_eq_nil_iff]
  · have huris := uris_senses_respelled h filters kg maxDistance mentions
    exact congrArg (fun rows => (Search.relevant kg maxDistance rows).outcome) huris
  · exact respelled_answer_nil index index' mentions
  · intro g hg
    exact .value (respelled_answer_best h filters kg maxDistance mentions g k)

end TwoIndexes

/-- A service over an index and a closed store answers every request for at least one candidate. -/
theorem exists_resolve_eq_ok {store : TripleStore} (hclosed : store.Closed) (index : CandidateIndex)
    (filters : Pipeline) (decoder : Decoder) (maxDistance : Nat) (mentions : List Mention)
    (hk : 0 < k) :
    ∃ table, ((pathService index.lookup filters decoder store.graph maxDistance).resolve
      mentions k).outcome = .ok table := by
  have hcourse := resolve_course (pathService index.lookup filters decoder store.graph maxDistance)
    mentions k
  generalize calls ((pathService index.lookup filters decoder store.graph maxDistance).resolve
    mentions k) = cs at hcourse
  generalize ((pathService index.lookup filters decoder store.graph maxDistance).resolve
    mentions k).outcome = outcome at hcourse
  cases hcourse with
  | refused hzero => omega
  | @unreachable before after failed fault hk parts reached unreached =>
      exact absurd unreached (by rw [pathService, outage?_lookup]; simp)
  | exhausted hk reached hnone => exact ⟨_, rfl⟩
  | proceeding proceeds linking =>
      cases linking with
      | @unconstructed fault construction =>
          rcases Search.relevant_graph hclosed maxDistance _ with ⟨hrun, -⟩ | ⟨g, trees, hrun, -⟩
          · cases hrun.symm.trans construction
          · cases hrun.symm.trans construction
      | unusable construction => exact ⟨_, rfl⟩
      | unscored construction scoring => simp [pathService, degreeScoring] at scoring
      | scored construction scoring => exact ⟨_, rfl⟩

/-- How URIs are spelled does not matter.  Over two indexes whose lists agree place by place in
support, prior and decoded URI, a request ends with the same fault or with tables of the same
mentions in which the ranks have the same scores and are held by the candidates at the same places,
each with the URI that its own index gives it.  Over triples there is such a table for every request
for at least one candidate. -/
theorem resolve_respelled (filters : Pipeline) (decoder : Decoder) (maxDistance : Nat)
    {index index' : CandidateIndex} (h : index.Respelled decoder index') :
    (∀ kg mentions k, EndAlike (Table.Respelled index index')
      ((pathService index.lookup filters decoder kg maxDistance).resolve mentions k).outcome
      ((pathService index'.lookup filters decoder kg maxDistance).resolve mentions k).outcome) ∧
    ∀ triples mentions k, 0 < k → ∃ table table',
      ((pathService index.lookup filters decoder (TripleStore.ofTriples triples).graph
        maxDistance).resolve mentions k).outcome = .ok table ∧
      ((pathService index'.lookup filters decoder (TripleStore.ofTriples triples).graph
        maxDistance).resolve mentions k).outcome = .ok table' ∧
      Table.Respelled index index' table table' := by
  have halike := fun kg mentions k =>
    (corresponds_of_respelled h filters kg maxDistance mentions k).resolve.1
  refine ⟨halike, ?_⟩
  intro triples mentions k hk
  have hends := halike (TripleStore.ofTriples triples).graph mentions k
  obtain ⟨table, htable⟩ := exists_resolve_eq_ok (TripleStore.closed_ofTriples triples) index
    filters decoder maxDistance mentions hk
  obtain ⟨table', htable'⟩ := exists_resolve_eq_ok (TripleStore.closed_ofTriples triples) index'
    filters decoder maxDistance mentions hk
  rw [htable, htable'] at hends
  cases hends with
  | value hrespelled => exact ⟨table, table', htable, htable', hrespelled⟩

/-- Two candidates for one form, which are two spellings of one vertex. -/
def twice : CandidateIndex :=
  ⟨[("Paris", [⟨"p%61", 3, .zero⟩, ⟨"pa", 2, .zero⟩]), ("Seine", [⟨"s", 0, .zero⟩])]⟩

/-- The same candidates with the two spellings exchanged. -/
def exchanged : CandidateIndex :=
  ⟨[("Paris", [⟨"pa", 3, .zero⟩, ⟨"p%61", 2, .zero⟩]), ("Seine", [⟨"s", 0, .zero⟩])]⟩

theorem respelled_exchanged : twice.Respelled .percent exchanged := by
  have hplain : Decoder.Spelling "pa".toList "pa".toList :=
    .literal (by decide) (.literal (by decide) .nil)
  have hspelled : Decoder.decode .percent "pa" = Decoder.decode .percent "p%61" :=
    hplain.decode_percent.trans spelling_escaped.decode_percent.symm
  intro surface
  by_cases hparis : surface = "Paris"
  · subst hparis
    exact .some (.cons ⟨rfl, rfl, hspelled⟩ (.cons ⟨rfl, rfl, hspelled.symm⟩ .nil))
  · by_cases hseine : surface = "Seine"
    · subst hseine
      exact .some (.cons ⟨rfl, rfl, rfl⟩ .nil)
    · have hunlisted : twice.find? surface = none ∧ exchanged.find? surface = none := by
        simp [CandidateIndex.find?, twice, exchanged, List.lookup_cons, beq_false_of_ne hparis,
          beq_false_of_ne hseine]
      rw [hunlisted.1, hunlisted.2]
      exact .none

theorem resolve_respelled_exchanged :
    ∃ table table',
      ((pathService twice.lookup ⟨[.bestSupport 2]⟩ .percent
        (TripleStore.ofTriples [⟨"s", "flows", "pa"⟩]).graph 2).resolve
          [⟨"Seine", 9, ""⟩, ⟨"Paris", 0, ""⟩] 2).outcome = .ok table ∧
      ((pathService exchanged.lookup ⟨[.bestSupport 2]⟩ .percent
        (TripleStore.ofTriples [⟨"s", "flows", "pa"⟩]).graph 2).resolve
          [⟨"Seine", 9, ""⟩, ⟨"Paris", 0, ""⟩] 2).outcome = .ok table' ∧
      Table.Respelled twice exchanged table table' :=
  (resolve_respelled ⟨[.bestSupport 2]⟩ .percent 2 respelled_exchanged).2
    [⟨"s", "flows", "pa"⟩] [⟨"Seine", 9, ""⟩, ⟨"Paris", 0, ""⟩] 2 (by decide)

end Service
end EntityLinking
