import Mathlib.Data.List.Infix

/- `LIKE` of PostgreSQL.

   `%` stands for any text, `_` for any character, and a backslash takes the character after
   it as it is. Between two `%`, a text without these characters is searched for literally
   (`like_contains`). -/
namespace LikePattern

inductive Token where
  | any
  | one
  | literal (c : Char)
  deriving DecidableEq

/-- What a character stands for on its own. -/
def tokenOf (c : Char) : Token := if c = '%' then .any else if c = '_' then .one else .literal c

/-- `none` where nothing follows a backslash. -/
def read : List Char → Option (List Token)
  | [] => some []
  | c :: rest =>
    if c = '\\' then
      match rest with
      | [] => none
      | d :: rest => (read rest).map (.literal d :: ·)
    else (read rest).map (tokenOf c :: ·)

def runs : List Token → List Char → Bool
  | [], text => text.isEmpty
  | .any :: tokens, text => text.tails.any (runs tokens)
  | .one :: tokens, text =>
    match text with
    | [] => false
    | _ :: rest => runs tokens rest
  | .literal c :: tokens, text =>
    match text with
    | [] => false
    | d :: rest => c == d && runs tokens rest

/-- `none` where the database rejects the pattern. -/
def like (pattern text : String) : Option Bool := (read pattern.toList).map fun tokens => runs tokens text.toList

/-- None of its characters means anything but itself. -/
def Plain (text : String) : Prop := '%' ∉ text.toList ∧ '_' ∉ text.toList ∧ '\\' ∉ text.toList

instance (text : String) : Decidable (Plain text) := inferInstanceAs (Decidable (_ ∧ _))

theorem read_cons {c : Char} (hbackslash : c ≠ '\\') (rest : List Char) :
    read (c :: rest) = (read rest).map (tokenOf c :: ·) := by
  rw [read.eq_def]
  exact if_neg hbackslash

theorem read_literals {cs rest : List Char} (hpercent : '%' ∉ cs) (hunderscore : '_' ∉ cs) (hbackslash : '\\' ∉ cs) :
    read (cs ++ rest) = (read rest).map (cs.map Token.literal ++ ·) := by
  induction cs with
  | nil => exact (Option.map_id' (x := read rest)).symm
  | cons c cs ih =>
    obtain ⟨hpc, hpercent⟩ := not_or.mp (List.mem_cons.not.mp hpercent)
    obtain ⟨huc, hunderscore⟩ := not_or.mp (List.mem_cons.not.mp hunderscore)
    obtain ⟨hbc, hbackslash⟩ := not_or.mp (List.mem_cons.not.mp hbackslash)
    have htoken : tokenOf c = .literal c := by rw [tokenOf, if_neg (Ne.symm hpc), if_neg (Ne.symm huc)]
    rw [List.cons_append, read_cons (Ne.symm hbc), htoken, ih hpercent hunderscore hbackslash, Option.map_map]
    rfl

theorem runs_literals (cs : List Char) (tokens : List Token) (text : List Char) :
    runs (cs.map Token.literal ++ tokens) text = true ↔ ∃ rest, text = cs ++ rest ∧ runs tokens rest = true := by
  induction cs generalizing text with
  | nil => simp
  | cons c cs ih =>
    cases text with
    | nil => simp [runs]
    | cons d text =>
      show (c == d && runs (cs.map Token.literal ++ tokens) text) = true ↔ _
      rw [Bool.and_eq_true, beq_iff_eq, ih]
      constructor
      · intro h
        obtain ⟨rfl, rest, rfl, hrest⟩ := h
        exact ⟨rest, rfl, hrest⟩
      · intro h
        obtain ⟨rest, htext, hrest⟩ := h
        obtain ⟨rfl, rfl⟩ := List.cons.inj htext
        exact ⟨rfl, rest, rfl, hrest⟩

theorem runs_any (tokens : List Token) (text : List Char) :
    runs (.any :: tokens) text = true ↔ ∃ before rest, text = before ++ rest ∧ runs tokens rest = true := by
  show text.tails.any (runs tokens) = true ↔ _
  rw [List.any_eq_true]
  constructor
  · intro h
    obtain ⟨rest, hmem, hrest⟩ := h
    obtain ⟨before, hbefore⟩ := (List.mem_tails ..).mp hmem
    exact ⟨before, rest, hbefore.symm, hrest⟩
  · intro h
    obtain ⟨before, rest, htext, hrest⟩ := h
    exact ⟨rest, (List.mem_tails ..).mpr ⟨before, htext.symm⟩, hrest⟩

/-- A plain text is looked for as it is. -/
theorem like_contains {part : String} (hplain : Plain part) (text : String) :
    like ("%" ++ part ++ "%") text = some (decide (part.toList <:+: text.toList)) := by
  obtain ⟨hpercent, hunderscore, hbackslash⟩ := hplain
  have htokens : read ("%" ++ part ++ "%").toList = some (.any :: (part.toList.map Token.literal ++ [.any])) := by
    have hsign : "%".toList = ['%'] := by decide
    rw [String.toList_append, String.toList_append, hsign, List.append_assoc, List.singleton_append,
      read_cons (by decide), read_literals hpercent hunderscore hbackslash]
    rfl
  rw [like, htokens, Option.map_some]
  congr 1
  rw [Bool.eq_iff_iff, decide_eq_true_eq, runs_any]
  have hend (rest : List Char) : runs [.any] rest = true := (runs_any [] rest).mpr ⟨rest, [], by simp, rfl⟩
  constructor
  · intro h
    obtain ⟨before, rest, htext, hrest⟩ := h
    obtain ⟨after, rfl, -⟩ := (runs_literals part.toList [.any] rest).mp hrest
    exact ⟨before, after, by rw [htext, List.append_assoc]⟩
  · intro h
    obtain ⟨before, after, htext⟩ := h
    exact ⟨before, part.toList ++ after, by rw [← htext, List.append_assoc],
      (runs_literals part.toList [.any] _).mpr ⟨after, rfl, hend after⟩⟩

/-- What ends with a percent sign is never rejected. -/
theorem read_percent_isSome (cs : List Char) : (read (cs ++ ['%'])).isSome := by
  fun_induction read cs with
  | case1 => rfl
  | case2 => rfl
  | case3 d rest ih =>
    show ((read (rest ++ ['%'])).map _).isSome
    rwa [Option.isSome_map]
  | case4 c rest hbackslash ih =>
    rw [List.cons_append, read_cons hbackslash, Option.isSome_map]
    exact ih

end LikePattern
