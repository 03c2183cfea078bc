import WikiFeed.Catalog.Feed
import WikiFeed.Proofs.Catalog.Buckets
import WikiFeed.Proofs.Outcome

/-! # The strings in two languages

Each entry of a catalog writes the same key in both tables of wordings, so the tables have the same
keys all along (`Strings.Paired`), and the index of one of them serves for both. Main statement:
`index_serves_both`. -/

namespace WikiFeed.Catalog

open Sprite (Result Fault)
open Outcome (ok_bind)
open Places

theorem keys_speak? {t u : Table} {key character text : String}
    (h : t.speak? key character text = some u) : u.map (·.1) = withKey (t.map (·.1)) key := by
  unfold Table.speak? at h
  split at h
  · exact absurd h (Option.some_ne_none _).symm
  · rw [← Option.some.inj h]
    exact keys_put _ _ _
  · rename_i hnone
    have hkey : key ∉ t.map (·.1) := by
      rw [← lookup_isSome_iff, hnone]
      exact Bool.false_ne_true
    rw [← Option.some.inj h, withKey, if_neg (mt List.contains_iff_mem.mp hkey), List.map_append]
    rfl

/-! ### Both languages -/

/-- The tables of both languages have the same keys, each once. -/
structure Strings.Paired (s : Strings) : Prop where
  keys : s.chinese.map (·.1) = s.english.map (·.1)
  nodup : (s.chinese.map (·.1)).Nodup

variable {s u : Strings}

theorem Strings.Paired.grow (h : s.Paired) {key : String}
    (hchinese : u.chinese.map (·.1) = withKey (s.chinese.map (·.1)) key)
    (henglish : u.english.map (·.1) = withKey (s.english.map (·.1)) key) : u.Paired where
  keys := by rw [hchinese, henglish, h.keys]
  nodup := by
    rw [hchinese]
    exact nodup_withKey h.nodup key

theorem Strings.Paired.word {path : List String} {e : Entry} (hu : s.word path e = .ok u)
    (h : s.Paired) : u.Paired := by
  unfold Strings.word at hu
  split at hu
  · -- what a character says
    dsimp only at hu
    split at hu
    · rename_i hchinese henglish
      cases hu
      exact h.grow (keys_speak? hchinese) (keys_speak? henglish)
    · cases hu
  · cases hu
    exact h.grow (keys_put _ _ _) (keys_put _ _ _)

variable {pictures : List (Datum × Datum)}

theorem Strings.Paired.take {e : Entry} (hu : s.take pictures e = .ok u) (h : s.Paired) :
    u.Paired := by
  unfold Strings.take at hu
  split at hu
  · cases hu
    exact h
  · rename_i path _
    split_ifs at hu
    · cases hitem : itemOf pictures path e with
      | error f => rw [hitem] at hu; cases hu
      | ok item =>
        rw [hitem] at hu
        exact Strings.Paired.word hu ⟨h.keys, h.nodup⟩
    · exact h.word hu

theorem Strings.Paired.foldlM {entries : List Entry}
    (hu : entries.foldlM (Strings.take pictures) s = .ok u) (h : s.Paired) : u.Paired := by
  induction entries generalizing s with
  | nil =>
    cases hu
    exact h
  | cons e entries ih =>
    rw [List.foldlM_cons] at hu
    cases hstep : s.take pictures e with
    | error f => rw [hstep] at hu; cases hu
    | ok t =>
      rw [hstep, ok_bind] at hu
      exact ih hu (h.take hstep)

theorem paired_strings {entries : List Entry} (h : strings pictures entries = .ok s) : s.Paired :=
  Strings.Paired.foldlM h ⟨rfl, List.nodup_nil⟩

/-- **One index for both languages.** The tables that the entries of a catalog give have the same
keys. For each of these keys the last entry of the index of the Chinese table whose key is not above
it names a bucket of either table with the wording that the table gives to the key. The buckets of a
table are at most a hundred, none is empty, and together they hold each entry of the table once; in
the index both the keys and the numbers of the buckets grow. -/
theorem index_serves_both {pictures : List (Datum × Datum)} {entries : List Entry} {s : Strings}
    (h : strings pictures entries = .ok s) :
    s.chinese.map (·.1) = s.english.map (·.1) ∧
    (∀ key ∈ s.chinese.map (·.1), ∃ first name inChinese inEnglish wording wording',
      ((index s.chinese).filter (·.1 ≤ key)).getLast? = some (first, name) ∧
      (buckets s.chinese).lookup name = some inChinese ∧
      (buckets s.english).lookup name = some inEnglish ∧
      s.chinese.lookup key = some wording ∧ inChinese.lookup key = some wording ∧
      s.english.lookup key = some wording' ∧ inEnglish.lookup key = some wording') ∧
    (∀ t ∈ [s.chinese, s.english],
      (t.map (·.1)).Nodup ∧ ((buckets t).flatMap (·.2)).Perm t ∧
      (buckets t).length ≤ 100 ∧ ∀ b ∈ buckets t, b.2 ≠ []) ∧
    (index s.chinese).Pairwise (fun a b => a.1 < b.1 ∧ a.2 < b.2) ∧
    (index s.chinese).map (·.2) =
      (List.range (buckets s.chinese).length).map bucketName := by
  have hpaired := paired_strings h
  have hnodup' : (s.english.map (·.1)).Nodup := hpaired.keys ▸ hpaired.nodup
  refine ⟨hpaired.keys, fun key hkey => ?_, ?_, ?_, ?_⟩
  · obtain ⟨e, he, rfl⟩ := List.mem_map.mp hkey
    obtain ⟨e', he', heq⟩ := List.mem_map.mp (hpaired.keys ▸ hkey)
    obtain ⟨first, name, es, hlast, hbucket, hes⟩ := exists_bucket_of_mem hpaired.nodup he
    obtain ⟨first', name', es', hlast', hbucket', hes'⟩ := exists_bucket_of_mem hnodup' he'
    -- the index of the English table would lead to the same bucket
    rw [heq, ← index_congr hpaired.keys, hlast] at hlast'
    cases hlast'
    refine ⟨first, name, es, es', e.2, e'.2, hlast, hbucket, hbucket', ?_, hes, ?_, ?_⟩
    · exact lookup_of_mem hpaired.nodup he
    · rw [← heq]
      exact lookup_of_mem hnodup' he'
    · rw [← heq]
      exact hes'
  · have hall (t : Table) (ht : (t.map (·.1)).Nodup) : (t.map (·.1)).Nodup ∧
        ((buckets t).flatMap (·.2)).Perm t ∧ (buckets t).length ≤ 100 ∧
          ∀ b ∈ buckets t, b.2 ≠ [] := by
      have hnumbered := numbered_buckets t
      refine ⟨ht, ?_, by simpa using hnumbered.bounded, hnumbered.filled⟩
      rw [flatMap_buckets]
      exact sorted_perm t
    simp only [List.forall_mem_cons, List.not_mem_nil, false_imp_iff, implies_true, and_true]
    exact ⟨hall _ hpaired.nodup, hall _ hnodup'⟩
  · exact (ordered_buckets hpaired.nodup).firstKeys_pairwise.and (index_names_pairwise s.chinese)
  · exact index_names s.chinese

def trusty : Entry :=
  { context := some "STRINGS.CHARACTERS.GENERIC.DESCRIBE.AXE", id := "Trusty.", text := "可靠。" }

def chop : Entry :=
  { context := some "STRINGS.ACTIONS.CHOP", id := "Chop", text := "砍" }

def fireless : Entry :=
  { context := some "strings.characters.willow.describe.axe", id := "No fire.", text := "没火。" }

def axeStrings : Strings where
  chinese := [
    ("CHARACTERS.DESCRIBE.AXE", .spoken [("wilson", "可靠。"), ("willow", "没火。")]),
    ("ACTIONS.CHOP", .text "砍")]
  english := [
    ("CHARACTERS.DESCRIBE.AXE", .spoken [("wilson", "Trusty."), ("willow", "No fire.")]),
    ("ACTIONS.CHOP", .text "Chop")]
  items := []

theorem strings_axe : strings [] [trusty, chop, fireless] = .ok axeStrings := by
  have htrusty : pathOf? trusty = some ["STRINGS", "CHARACTERS", "GENERIC", "DESCRIBE", "AXE"] := by
    decide +kernel
  have hchop : pathOf? chop = some ["STRINGS", "ACTIONS", "CHOP"] := by decide +kernel
  have hfireless :
      pathOf? fireless = some ["STRINGS", "CHARACTERS", "WILLOW", "DESCRIBE", "AXE"] := by
    decide +kernel
  have hwilson : characterOf "GENERIC" = "wilson" := by decide +kernel
  have hwillow : characterOf "WILLOW" = "willow" := by decide +kernel
  simp only [strings, List.foldlM_cons, Strings.take, htrusty, hchop, hfireless, Strings.word,
    hwilson, hwillow]
  rfl

theorem index_serves_both_axe :
    strings [] [trusty, chop, fireless] = .ok axeStrings ∧
    ∃ first name es,
      ((index axeStrings.chinese).filter (·.1 ≤ "CHARACTERS.DESCRIBE.AXE")).getLast? =
        some (first, name) ∧
      (buckets axeStrings.english).lookup name = some es ∧
      es.lookup "CHARACTERS.DESCRIBE.AXE" =
        some (.spoken [("wilson", "Trusty."), ("willow", "No fire.")]) := by
  have hkey : "CHARACTERS.DESCRIBE.AXE" ∈ axeStrings.chinese.map (·.1) := List.mem_cons_self
  obtain ⟨first, name, _, es, _, _, hlast, -, hbucket, -, -, heq, hes⟩ :=
    (index_serves_both strings_axe).2.1 "CHARACTERS.DESCRIBE.AXE" hkey
  refine ⟨strings_axe, first, name, es, hlast, hbucket, ?_⟩
  rw [hes, ← heq]
  rfl

end WikiFeed.Catalog
