import ContinuityLedger.Foundations.JsonbText
import ContinuityLedger.Foundations.Prefixed
import ContinuityLedger.Ledger.Tables

/-! The text under the hash of a history entry tells the entry's link, operation, version and images. -/

namespace ContinuityLedger.Ledger

open Foundations Foundations.Sha256 Foundations.Delimited

/-- What `entry_row_hash` hashes. -/
def entryRowText (prevHash op : String) (version : ℤ) (beforeText afterText : Option String) : String :=
  prevHash ++ "|" ++ op ++ "|" ++ toString version ++ "|" ++ beforeText.getD "" ++ "|" ++ afterText.getD ""

def entryRowHash (prevHash op : String) (version : ℤ) (beforeText afterText : Option String) : Hex64 :=
  sha256Hex (entryRowText prevHash op version beforeText afterText)

def HistoryEntry.hashedText (e : HistoryEntry) : String :=
  entryRowText e.prevHash.text e.op.text e.version (e.before.map Jsonb.Value.text) (e.after.map Jsonb.Value.text)

/-- The database hashes the same text. -/
lemma recomputed_eq_hashedText (e : HistoryEntry) : e.recomputed = sha256Hex e.hashedText := rfl

lemma hashedText_eq (e : HistoryEntry) :
    e.hashedText = e.prevHash.text ++ ("|" ++ (e.op.text ++ ("|" ++ (toString e.version ++ ("|" ++
      ((e.before.map Jsonb.Value.text).getD "" ++ ("|" ++ (e.after.map Jsonb.Value.text).getD ""))))))) := by
  unfold HistoryEntry.hashedText entryRowText
  simp only [String.append_assoc]

lemma Op.free_text (op : Op) : Free '|' op.text := by
  cases op <;> simp [Free, Op.text]

lemma Op.text_injective : Function.Injective Op.text := by
  intro a b h
  cases a <;> cases b <;> first | rfl | exact absurd h (by decide)

/-- An image that is there on both sides, or on neither, ends where what follows starts. -/
lemma cut_image {v w : Option Jsonb.Value} {x y : List Char} (hp : v.isSome = w.isSome) (hx : Jsonb.Ends x)
    (hy : Jsonb.Ends y) (h : ((v.map Jsonb.Value.text).getD "").toList ++ x =
      ((w.map Jsonb.Value.text).getD "").toList ++ y) : v = w ∧ x = y := by
  cases v with
  | none =>
    cases w with
    | none => exact ⟨rfl, h⟩
    | some w => cases hp
  | some v =>
    cases w with
    | none => cases hp
    | some w =>
      obtain ⟨rfl, hxy⟩ := Jsonb.Value.cut v w hx hy h
      exact ⟨rfl, hxy⟩

/-- The operation says which images are there. -/
lemma images_isSome {a b : HistoryEntry} (ha : a.checks = true) (hb : b.checks = true) (hop : a.op = b.op) :
    a.before.isSome = b.before.isSome ∧ a.after.isSome = b.after.isSome := by
  unfold HistoryEntry.checks at ha hb
  rw [← hop] at hb
  cases hk : a.op <;> simp only [hk, Bool.and_eq_true, Option.isNone_iff_eq_none] at ha hb <;>
    simp [ha.1, ha.2, hb.1, hb.2]

/-- What the text of an entry holds. -/
def HistoryEntry.SameContents (a b : HistoryEntry) : Prop :=
  a.prevHash = b.prevHash ∧ a.op = b.op ∧ a.version = b.version ∧ a.before = b.before ∧ a.after = b.after

lemma sameContents_of_hashedText {a b : HistoryEntry} (ha : a.checks = true) (hb : b.checks = true)
    (h : a.hashedText = b.hashedText) : a.SameContents b := by
  rw [hashedText_eq, hashedText_eq] at h
  obtain ⟨hprev, h⟩ := cut_hash h
  obtain ⟨hop, h⟩ := cut_bar a.op.free_text b.op.free_text h
  obtain ⟨hversion, h⟩ := cut_number h
  have hop' := Op.text_injective hop
  obtain ⟨hbefore, hafter⟩ := images_isSome ha hb hop'
  have hl := congrArg String.toList h
  simp only [String.toList_append, String.reduceToList] at hl
  obtain ⟨hb', hl⟩ := cut_image hbefore (by simp [Jsonb.Ends]; rfl) (by simp [Jsonb.Ends]; rfl) hl
  have hnil : Jsonb.Ends [] := by simp [Jsonb.Ends]
  obtain ⟨ha', -⟩ := cut_image hafter hnil hnil (by simpa using hl)
  exact ⟨hprev, hop', hversion, hb', ha'⟩

/-- Entries with one text have the same contents; entries with one hash too, or their texts collide. -/
theorem entry_text_unambiguous {a b : HistoryEntry} (ha : a.checks = true) (hb : b.checks = true) :
    (a.hashedText = b.hashedText → a.SameContents b) ∧
      (a.rowHash = a.recomputed → b.rowHash = b.recomputed → a.rowHash = b.rowHash → a.SameContents b ∨
        (utf8 a.hashedText ≠ utf8 b.hashedText ∧ sha256 (utf8 a.hashedText) = sha256 (utf8 b.hashedText))) := by
  refine ⟨sameContents_of_hashedText ha hb, fun hra hrb hrow => ?_⟩
  by_cases htext : a.hashedText = b.hashedText
  · exact .inl (sameContents_of_hashedText ha hb htext)
  · refine .inr ⟨fun hbytes => htext (PyStr.utf8_injective hbytes), ?_⟩
    rw [hra, hrb, recomputed_eq_hashedText, recomputed_eq_hashedText] at hrow
    exact congrArg Digest.bytes (Digest.hex_injective hrow)

/-- A bar and quotes inside a string. -/
def barEntry (op : Op) (before after : Option Jsonb.Value) : HistoryEntry :=
  ⟨1, "a", 1, op, "app", 0, before, after, genesis, genesis, 1⟩

theorem entry_text_unambiguous_example :
    let a := barEntry .create none (some (.object [("id", .string "a\"|x")]))
    let b := barEntry .delete (some (.object [("id", .string "a\"|x")])) none
    (a.hashedText = b.hashedText → a.SameContents b) ∧
      (a.rowHash = a.recomputed → b.rowHash = b.recomputed → a.rowHash = b.rowHash → a.SameContents b ∨
        (utf8 a.hashedText ≠ utf8 b.hashedText ∧ sha256 (utf8 a.hashedText) = sha256 (utf8 b.hashedText))) :=
  entry_text_unambiguous rfl rfl

end ContinuityLedger.Ledger
