import EntityLinking.Proofs.Table
import EntityLinking.Service

/-!
# From scores to a table

A scoring may answer as it likes: leave mentions out, answer one in several rows, add mentions that
nobody asked for.  Mentions that it leaves out get an empty row, and the table joins the rest.
-/

namespace EntityLinking
namespace Service

variable {σ : Type} {senses : MentionSenses} {scores : MentionScores σ}

/-- The scored senses of each mention as resolutions. -/
def resolved (scores : MentionScores σ) : List (Mention × List (Resolution σ)) :=
  scores.map fun row => (row.1, row.2.map Sense.toResolution)

theorem isNone_find?_iff {m : Mention} :
    (scores.find? Mention.key m.key).isNone = true ↔
      m.key ∉ (scores.map Prod.fst).map Mention.key := by
  simp [ScoreRows.find?]

/-- The mentions that the scores lack are added once each, without senses. -/
theorem fillIn_eq_append (senses : MentionSenses) :
    ∀ scores : MentionScores σ, fillIn senses scores =
      scores ++ (Mention.fresh (scores.map Prod.fst) (senses.map Prod.fst)).map fun m =>
        (m, []) := by
  induction senses with
  | nil => simp [fillIn]
  | cons row rest ih =>
      intro scores
      simp only [fillIn] at ih
      rw [fillIn, List.foldl_cons, ih, List.map_cons]
      by_cases hknown : row.1.key ∈ (scores.map Prod.fst).map Mention.key
      · have hfound : ¬ (scores.find? Mention.key row.1.key).isNone = true := by
          rw [isNone_find?_iff]
          exact not_not.mpr hknown
        rw [if_neg hfound, Mention.fresh_cons_of_mem hknown]
      · rw [if_pos (isNone_find?_iff.mpr hknown), Mention.fresh_cons_of_not_mem hknown,
          List.map_append, List.map_singleton, List.append_assoc, List.map_cons,
          List.singleton_append]

theorem resolved_fillIn (senses : MentionSenses) (scores : MentionScores σ) :
    resolved (fillIn senses scores) = resolved scores ++
      (Mention.fresh (scores.map Prod.fst) (senses.map Prod.fst)).map fun m => (m, []) := by
  rw [resolved, fillIn_eq_append, List.map_append, List.map_map]
  rfl

theorem map_fst_resolved (scores : MentionScores σ) :
    (resolved scores).map Prod.fst = scores.map Prod.fst := by
  simp [resolved]

variable [Ranked σ]

/-- The table of some scores for a request: it has the mentions of both. -/
def answer (scores : MentionScores σ) (mentions : List Mention) : Table σ :=
  Table.tabulate (scores.map Prod.fst ++ mentions) (Table.filed (resolved scores))

theorem table_fillIn (senses : MentionSenses) (scores : MentionScores σ) :
    Sense.table (fillIn senses scores) = answer scores (senses.map Prod.fst) := by
  have hmentions : (resolved (fillIn senses scores)).map Prod.fst =
      scores.map Prod.fst ++ Mention.fresh (scores.map Prod.fst) (senses.map Prod.fst) := by
    rw [resolved_fillIn, List.map_append, map_fst_resolved, List.map_map]
    exact congrArg _ (List.map_id _)
  have hfiled : Table.filed (resolved (fillIn senses scores)) =
      Table.filed (resolved scores) := by
    funext m
    rw [resolved_fillIn, Table.filed_append, Table.filed_map_nil, List.append_nil]
  calc Sense.table (fillIn senses scores)
      = Table.tabulate ((resolved (fillIn senses scores)).map Prod.fst)
          (Table.filed (resolved (fillIn senses scores))) := Table.assemble_eq_tabulate _
    _ = answer scores (senses.map Prod.fst) := by
      rw [hmentions, hfiled, answer, Table.tabulate, Mention.distinct_append_fresh, Table.tabulate]

theorem unresolved_eq (set : Candidates) :
    unresolved set = answer ([] : MentionScores σ) set.mentions := by
  have hmentions : (set.mentions.map fun m => (m, ([] : List (Resolution σ)))).map Prod.fst =
      set.mentions := by
    rw [List.map_map]
    exact List.map_id _
  have hfiled : Table.filed (set.mentions.map fun m => (m, ([] : List (Resolution σ)))) =
      Table.filed (resolved []) := by
    funext m
    rw [Table.filed_map_nil]
    rfl
  rw [unresolved, Table.assemble_eq_tabulate, hmentions, hfiled, answer]
  rfl

/-- The mentions of a request may be repeated or not. -/
theorem answer_distinct (scores : MentionScores σ) (mentions : List Mention) :
    answer scores (Mention.distinct mentions) = answer scores mentions := by
  rw [answer, Table.tabulate, Mention.distinct_append_distinct, answer, Table.tabulate]

end Service
end EntityLinking
