import FreightAuditor.Library.JsText
import FreightAuditor.Library.StableSort

/- The order of texts by their UTF-16 code units, which `Array.prototype.sort` uses where it is
   given no comparison. Unlike a collation it tells any two texts apart. -/
namespace JsText

/-- The code units of one character: itself, or two surrogates. -/
def codeUnits (c : Char) : List ℕ :=
  if c.toNat < 0x10000 then [c.toNat]
  else [0xd800 + (c.toNat - 0x10000) / 0x400, 0xdc00 + (c.toNat - 0x10000) % 0x400]

def compareUnits (a b : String) : Ordering := compare (a.toList.flatMap codeUnits) (b.toList.flatMap codeUnits)

/-- `sort()` of an array of texts. -/
def sortTexts (texts : List String) : List String := StableSort.sort compareUnits texts

instance : Std.TransCmp compareUnits :=
  @StableSort.transCmp_key _ _ (compare : List ℕ → List ℕ → Ordering) inferInstance fun s : String => s.toList.flatMap codeUnits

/-- No character is a surrogate. -/
theorem char_range (c : Char) : c.toNat < 0xd800 ∨ 0xdfff < c.toNat ∧ c.toNat < 0x110000 := c.valid

/-- The units of a character show where they end. -/
theorem codeUnits_append_inj {c d : Char} {r s : List ℕ} (h : codeUnits c ++ r = codeUnits d ++ s) : c = d ∧ r = s := by
  have hc := char_range c
  have hd := char_range d
  have hnat : c.toNat = d.toNat ∧ r = s := by
    unfold codeUnits at h
    split at h <;> split at h <;> simp only [List.cons_append, List.nil_append, List.cons.injEq] at h
    · exact h
    · omega
    · omega
    · obtain ⟨hhigh, hlow, hrest⟩ := h
      exact ⟨by omega, hrest⟩
  exact ⟨Char.toNat_inj.mp hnat.1, hnat.2⟩

theorem codeUnits_ne_nil (c : Char) : codeUnits c ≠ [] := by
  unfold codeUnits
  split <;> exact List.cons_ne_nil _ _

theorem flatMap_codeUnits_injective : ∀ {cs ds : List Char}, cs.flatMap codeUnits = ds.flatMap codeUnits → cs = ds
  | [], [], _ => rfl
  | [], d :: ds, h => absurd (List.append_eq_nil_iff.mp h.symm).1 (codeUnits_ne_nil d)
  | c :: cs, [], h => absurd (List.append_eq_nil_iff.mp h).1 (codeUnits_ne_nil c)
  | c :: cs, d :: ds, h => by
    obtain ⟨rfl, hrest⟩ := codeUnits_append_inj h
    rw [flatMap_codeUnits_injective hrest]

theorem eq_of_compareUnits {a b : String} (h : compareUnits a b = .eq) : a = b := by
  have hunits : a.toList.flatMap codeUnits = b.toList.flatMap codeUnits := Std.LawfulEqCmp.eq_of_compare h
  exact String.toList_inj.mp (flatMap_codeUnits_injective hunits)

theorem sortTexts_perm (texts : List String) : (sortTexts texts).Perm texts := StableSort.sort_perm _

/-- The order of the texts does not show where they are sorted. -/
theorem sortTexts_eq {texts texts' : List String} (hnodup : texts.Nodup) (h : texts'.Perm texts) :
    sortTexts texts' = sortTexts texts := by
  have huntied : StableSort.Untied compareUnits texts := hnodup.imp fun hne htie => hne (eq_of_compareUnits htie)
  exact huntied.sort_eq h

end JsText
