import EntityLinking.Proofs.Number.Numeral
import EntityLinking.Proofs.Text.Trimming
import EntityLinking.Settings.Override

/-!
# What the values of overrides mean

An override is given as text.  A threshold is a decimal numeral of a signed word, a stage order is a
list of names between commas with blank pieces left out, and a rule for decoding is a name; blanks
around any of them do not count.  Each reader has exactly the values that its text means, and a
fault exactly where the text means nothing.
-/

namespace EntityLinking
namespace Reading

variable {ε α β γ : Type} {result : Except ε α}

theorem map_map (f : α → β) (g : β → γ) : (result.map f).map g = result.map fun a => g (f a) := by
  cases result <;> rfl

theorem map_eq_ok_iff {f : α → β} {b : β} :
    result.map f = .ok b ↔ ∃ a, result = .ok a ∧ f a = b := by
  cases result <;> simp [Except.map]

theorem map_eq_error_iff {f : α → β} {e : ε} : result.map f = .error e ↔ result = .error e := by
  cases result <;> simp [Except.map]

theorem bind_eq_ok_iff {f : α → Except ε β} {b : β} :
    result.bind f = .ok b ↔ ∃ a, result = .ok a ∧ f a = .ok b := by
  cases result <;> simp [Except.bind]

theorem bind_eq_error_iff {f : α → Except ε β} {e : ε} :
    result.bind f = .error e ↔ result = .error e ∨ ∃ a, result = .ok a ∧ f a = .error e := by
  cases result <;> simp [Except.bind]

end Reading

/-! ## Names -/

/-- A name is looked up in a list that has all of them, each once. -/
theorem find?_name_eq_some_iff {α : Type} {all : List α} {name : α → String}
    (hall : ∀ a, a ∈ all) (hinjective : Function.Injective name) {s : String} {a : α} :
    (all.find? fun a => name a == s) = some a ↔ name a = s := by
  constructor
  · intro h
    have hname := List.find?_some h
    exact beq_iff_eq.mp hname
  · rintro rfl
    cases hfound : all.find? fun b => name b == name a with
    | none =>
        have hno := List.find?_eq_none.mp hfound a (hall a)
        simp at hno
    | some b =>
        have hsame := List.find?_some hfound
        rw [hinjective (beq_iff_eq.mp hsame)]

section Named

variable {α : Type} {ofName? : String → Option α} {name : α → String}
  {unknown : String → ConfigFault} {s : String}

/-- A name is read with blanks around it. -/
theorem named_eq_ok_iff (hname : ∀ {s a}, ofName? s = some a ↔ name a = s) {a : α} :
    (ofName? (Text.trim s)).elim (.error (unknown (Text.trim s))) Except.ok = .ok a ↔
      Text.Trimmed s.toList (name a).toList := by
  rw [← Text.trim_eq_iff, ← eq_comm (a := name a), ← hname]
  cases ofName? (Text.trim s) with
  | none => simp
  | some b => simp

/-- A fault tells the word that is no name. -/
theorem named_eq_error_iff (hname : ∀ {s a}, ofName? s = some a ↔ name a = s)
    {fault : ConfigFault} :
    (ofName? (Text.trim s)).elim (.error (unknown (Text.trim s))) Except.ok = .error fault ↔
      ∃ word, Text.Trimmed s.toList word.toList ∧ (∀ a, name a ≠ word) ∧ fault = unknown word := by
  simp only [← Text.trim_eq_iff, exists_eq_left']
  cases hfound : ofName? (Text.trim s) with
  | none =>
      have hno : ∀ a, name a ≠ Text.trim s := by
        intro a ha
        rw [hname.mpr ha] at hfound
        simp at hfound
      simp [hno, eq_comm]
  | some b =>
      have hknown : ¬ ∀ a, name a ≠ Text.trim s := fun hno => hno b (hname.mp hfound)
      simp [hknown]

end Named

namespace FilterKind

variable {s : String}

theorem ofName?_eq_some_iff {kind : FilterKind} : ofName? s = some kind ↔ kind.name = s :=
  find?_name_eq_some_iff (by rintro (_ | _ | _) <;> decide)
    (by rintro (_ | _ | _) (_ | _ | _) h <;> first | rfl | exact absurd h (by decide))

theorem read_eq_elim (s : String) :
    read s = (ofName? (Text.trim s)).elim (.error (.unknownStage (Text.trim s))) .ok := by
  unfold read
  cases ofName? (Text.trim s) <;> rfl

theorem read_eq_ok_iff {kind : FilterKind} :
    read s = .ok kind ↔ Text.Trimmed s.toList kind.name.toList := by
  rw [read_eq_elim, named_eq_ok_iff ofName?_eq_some_iff]

theorem read_eq_error_iff {fault : ConfigFault} :
    read s = .error fault ↔
      ∃ word, Text.Trimmed s.toList word.toList ∧ (∀ kind : FilterKind, kind.name ≠ word) ∧
        fault = .unknownStage word := by
  rw [read_eq_elim, named_eq_error_iff ofName?_eq_some_iff]

end FilterKind

namespace Decoding

variable {s : String}

theorem ofName?_eq_some_iff {rule : Decoding} : ofName? s = some rule ↔ rule.name = s :=
  find?_name_eq_some_iff (by rintro (_ | _ | _) <;> decide)
    (by rintro (_ | _ | _) (_ | _ | _) h <;> first | rfl | exact absurd h (by decide))

theorem read_eq_elim (s : String) :
    read s = (ofName? (Text.trim s)).elim (.error (.unknownDecoding (Text.trim s))) .ok := by
  unfold read
  cases ofName? (Text.trim s) <;> rfl

theorem read_eq_ok_iff {rule : Decoding} :
    read s = .ok rule ↔ Text.Trimmed s.toList rule.name.toList := by
  rw [read_eq_elim, named_eq_ok_iff ofName?_eq_some_iff]

theorem read_eq_error_iff {fault : ConfigFault} :
    read s = .error fault ↔
      ∃ word, Text.Trimmed s.toList word.toList ∧ (∀ rule : Decoding, rule.name ≠ word) ∧
        fault = .unknownDecoding word := by
  rw [read_eq_elim, named_eq_error_iff ofName?_eq_some_iff]

end Decoding

namespace Override

/-! ## Thresholds -/

/-- The number that the text of a threshold means. -/
def MeansNumber (text : String) (n : Int) : Prop :=
  ∃ core, Text.Trimmed text.toList core ∧ Integer.Numeral core n ∧
    -0x8000000000000000 ≤ n ∧ n < 0x8000000000000000

variable {key text : String}

theorem signed?_trimChars_eq_some_iff {n : Int} :
    Integer.signed? 10 (Text.trimChars text.toList) = some n ↔ MeansNumber text n := by
  simp only [MeansNumber, Text.trimmed_iff, exists_eq_left', Integer.signed?_eq_some_iff]

theorem readThreshold_eq_ok_iff {n : Int} :
    readThreshold key text = .ok n ↔ MeansNumber text n := by
  rw [← signed?_trimChars_eq_some_iff, readThreshold]
  cases Integer.signed? 10 (Text.trimChars text.toList) with
  | none => simp
  | some m => simp

theorem readThreshold_eq_error_iff {fault : ConfigFault} :
    readThreshold key text = .error fault ↔
      (∀ n, ¬ MeansNumber text n) ∧ fault = .invalidOverride key text := by
  simp only [← signed?_trimChars_eq_some_iff, readThreshold]
  cases Integer.signed? 10 (Text.trimChars text.toList) with
  | none => simp [eq_comm]
  | some m => simp

/-! ## Stage orders -/

/-- A text cut at its commas. -/
structure Pieces (text : List Char) (pieces : List (List Char)) : Prop where
  nonempty : pieces ≠ []
  plain : ∀ piece ∈ pieces, ',' ∉ piece
  joined : [','].intercalate pieces = text

/-- The stages that pieces name one after the other; a blank piece names none. -/
inductive Stages : List (List Char) → List FilterKind → Prop
  | nil : Stages [] []
  | blank {piece : List Char} {pieces : List (List Char)} {kinds : List FilterKind}
      (nothing : Text.Trimmed piece []) (later : Stages pieces kinds) :
      Stages (piece :: pieces) kinds
  | stage {piece : List Char} {pieces : List (List Char)} {kinds : List FilterKind}
      {kind : FilterKind} (name : Text.Trimmed piece kind.name.toList)
      (later : Stages pieces kinds) :
      Stages (piece :: pieces) (kind :: kinds)

theorem not_mem_of_mem_splitOn (text : List Char) : ∀ piece ∈ text.splitOn ',', ',' ∉ piece := by
  induction text with
  | nil => simp
  | cons c rest ih =>
      rw [List.splitOn_cons_eq_if_modifyHead]
      split
      next hcomma => simpa using ih
      next hplain =>
        cases hrest : rest.splitOn ',' with
        | nil => simp
        | cons first pieces =>
            rw [hrest, List.forall_mem_cons] at ih
            rw [List.modifyHead_cons, List.forall_mem_cons]
            refine ⟨?_, ih.2⟩
            rw [List.mem_cons, not_or]
            exact ⟨fun hc => hplain (by simp [← hc]), ih.1⟩

theorem pieces_iff {cs : List Char} {pieces : List (List Char)} :
    Pieces cs pieces ↔ cs.splitOn ',' = pieces := by
  constructor
  · intro h
    rw [← h.joined, List.splitOn_intercalate _ h.plain h.nonempty]
  · rintro rfl
    exact ⟨List.splitOn_ne_nil _ _, not_mem_of_mem_splitOn cs, List.intercalate_splitOn _⟩

/-- A word names no stage, and it is the first such one among some pieces; those before it are
blank or name stages. -/
def FirstUnknown (pieces : List (List Char)) (word : String) : Prop :=
  ∃ before piece behind kinds, pieces = before ++ piece :: behind ∧ Stages before kinds ∧
    Text.Trimmed piece word.toList ∧ word ≠ "" ∧ ∀ kind : FilterKind, kind.name ≠ word

/-- The stages of some pieces, or the fault of the first that names none. -/
def readPieces (pieces : List (List Char)) : Except ConfigFault (List FilterKind) :=
  ((pieces.filter fun piece => !(Text.trimChars piece).isEmpty).map String.ofList).mapM
    FilterKind.read

variable {piece : List Char} {pieces : List (List Char)} {kinds : List FilterKind}

theorem readPieces_cons_of_blank (h : Text.Trimmed piece []) :
    readPieces (piece :: pieces) = readPieces pieces := by
  rw [readPieces, List.filter_cons_of_neg, readPieces]
  simp [Text.trimmed_iff.mp h]

theorem readPieces_cons_of_not_blank (h : ¬ Text.Trimmed piece []) :
    readPieces (piece :: pieces) = (FilterKind.read (String.ofList piece)).bind fun kind =>
      (readPieces pieces).map (kind :: ·) := by
  rw [Text.trimmed_iff] at h
  rw [readPieces, List.filter_cons_of_pos (by simpa using h), List.map_cons, List.mapM_cons]
  rfl

/-- A stage has a name that is not blank. -/
theorem not_blank_of_name {kind : FilterKind} (h : Text.Trimmed piece kind.name.toList) :
    ¬ Text.Trimmed piece [] := by
  intro hblank
  have hname : kind.name.toList = [] := h.unique hblank
  cases kind <;> exact absurd hname (by decide)

theorem stages_cons_of_blank (h : Text.Trimmed piece []) :
    Stages (piece :: pieces) kinds ↔ Stages pieces kinds := by
  constructor
  · intro hstages
    cases hstages with
    | blank _ later => exact later
    | stage name _ => exact absurd h (not_blank_of_name name)
  · exact .blank h

theorem stages_cons_of_not_blank (h : ¬ Text.Trimmed piece []) :
    Stages (piece :: pieces) kinds ↔
      ∃ kind later, Text.Trimmed piece kind.name.toList ∧ Stages pieces later ∧
        kind :: later = kinds := by
  constructor
  · intro hstages
    cases hstages with
    | blank nothing _ => exact absurd nothing h
    | stage name later => exact ⟨_, _, name, later, rfl⟩
  · rintro ⟨kind, later, hname, hlater, rfl⟩
    exact .stage hname hlater

theorem readPieces_eq_ok_iff : readPieces pieces = .ok kinds ↔ Stages pieces kinds := by
  induction pieces generalizing kinds with
  | nil =>
      constructor
      · intro h
        obtain rfl : [] = kinds := Except.ok.inj h
        exact .nil
      · rintro ⟨⟩
        rfl
  | cons piece pieces ih =>
      by_cases hblank : Text.Trimmed piece []
      · rw [readPieces_cons_of_blank hblank, stages_cons_of_blank hblank, ih]
      · rw [readPieces_cons_of_not_blank hblank, stages_cons_of_not_blank hblank]
        simp only [Reading.bind_eq_ok_iff, Reading.map_eq_ok_iff, FilterKind.read_eq_ok_iff,
          String.toList_ofList, ih, exists_and_left]

/-- The first piece is the first unknown one, or it is known and the first
unknown one is behind it. -/
theorem firstUnknown_cons_iff {word : String} :
    FirstUnknown (piece :: pieces) word ↔
      (Text.Trimmed piece word.toList ∧ word ≠ "" ∧ ∀ kind : FilterKind, kind.name ≠ word) ∨
        (∃ kinds, Stages [piece] kinds) ∧ FirstUnknown pieces word := by
  constructor
  · rintro ⟨before, found, behind, kinds, heq, hstages, hword⟩
    cases hstages with
    | nil =>
        obtain ⟨rfl, rfl⟩ := List.cons.inj heq
        exact Or.inl hword
    | blank nothing later =>
        obtain ⟨rfl, rfl⟩ := List.cons.inj heq
        exact Or.inr ⟨⟨_, .blank nothing .nil⟩, _, _, _, _, rfl, later, hword⟩
    | stage name later =>
        obtain ⟨rfl, rfl⟩ := List.cons.inj heq
        exact Or.inr ⟨⟨_, .stage name .nil⟩, _, _, _, _, rfl, later, hword⟩
  · rintro (hword | ⟨⟨first, hfirst⟩, before, found, behind, kinds, rfl, hstages, hword⟩)
    · exact ⟨[], piece, pieces, [], rfl, .nil, hword⟩
    · cases hfirst with
      | blank nothing _ =>
          exact ⟨piece :: before, found, behind, kinds, rfl, .blank nothing hstages, hword⟩
      | stage name _ =>
          exact ⟨piece :: before, found, behind, _, rfl, .stage name hstages, hword⟩

theorem readPieces_eq_error_iff {fault : ConfigFault} :
    readPieces pieces = .error fault ↔
      ∃ word, FirstUnknown pieces word ∧ fault = .unknownStage word := by
  induction pieces with
  | nil =>
      constructor
      · intro h
        cases h
      · rintro ⟨word, ⟨before, found, behind, kinds, heq, -⟩, -⟩
        simp at heq
  | cons piece pieces ih =>
      simp only [firstUnknown_cons_iff]
      by_cases hblank : Text.Trimmed piece []
      · have hknown : ∃ kinds, Stages [piece] kinds := ⟨[], .blank hblank .nil⟩
        rw [readPieces_cons_of_blank hblank, ih]
        refine exists_congr fun word => and_congr_left fun _ => ?_
        constructor
        · intro hword
          exact Or.inr ⟨hknown, hword⟩
        · rintro (⟨hword, hne, -⟩ | ⟨-, hword⟩)
          · have hempty : word.toList = "".toList := hword.unique hblank
            exact absurd (String.toList_inj.mp hempty) hne
          · exact hword
      · rw [readPieces_cons_of_not_blank hblank]
        simp only [Reading.bind_eq_error_iff, Reading.map_eq_error_iff,
          FilterKind.read_eq_error_iff, FilterKind.read_eq_ok_iff, String.toList_ofList, ih]
        constructor
        · rintro (⟨word, hword, hno, rfl⟩ | ⟨kind, hkind, word, hword, rfl⟩)
          · refine ⟨word, Or.inl ⟨hword, ?_, hno⟩, rfl⟩
            rintro rfl
            exact hblank hword
          · exact ⟨word, Or.inr ⟨⟨[kind], .stage hkind .nil⟩, hword⟩, rfl⟩
        · rintro ⟨word, ⟨hword, -, hno⟩ | ⟨⟨kinds, hstages⟩, hword⟩, rfl⟩
          · exact Or.inl ⟨word, hword, hno, rfl⟩
          · cases hstages with
            | blank nothing _ => exact absurd nothing hblank
            | stage name _ => exact Or.inr ⟨_, name, word, hword, rfl⟩

/-- The stages that the text of a stage order means. -/
def MeansOrder (text : String) (kinds : List FilterKind) : Prop :=
  ∃ pieces, Pieces text.toList pieces ∧ Stages pieces kinds

theorem readOrder_eq_ok_iff : readOrder text = .ok kinds ↔ MeansOrder text kinds := by
  simp only [MeansOrder, pieces_iff, exists_eq_left', ← readPieces_eq_ok_iff]
  rfl

theorem readOrder_eq_error_iff {fault : ConfigFault} :
    readOrder text = .error fault ↔
      ∃ pieces word, Pieces text.toList pieces ∧ FirstUnknown pieces word ∧
        fault = .unknownStage word := by
  simp only [pieces_iff, exists_and_left, exists_eq_left', ← readPieces_eq_error_iff]
  rfl

end Override
end EntityLinking
