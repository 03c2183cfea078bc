import WikiFeed.Proofs.Rows
import WikiFeed.Proofs.Sprite.BankCuts
import WikiFeed.Proofs.Sprite.BuildCuts

/-! # Files that are cut off

Content that could be written is read the same whatever follows it, and of a part of it the reading
stops at a field. There is no length in these files against which they could be checked: it is the
fields themselves, in each record and each row, whose bytes are missing (`exact_buildFile`,
`exact_bankFile`). -/

namespace WikiFeed.Sprite

theorem Exact.ne_nil {α : Type} {r : Reading α} {bs : Bytes} {a : α} (h : Exact r bs a)
    (hr : r [] = .error .field) : bs ≠ [] := by
  rintro rfl
  have hreads := h.reads []
  rw [List.append_nil, hr] at hreads
  cases hreads

namespace Building

variable {data : Members} {folder : String} {notes : List String} {bs : Bytes}

theorem read_of_error {es : Members} {e : Fault} (hbs : bs ≠ [])
    (h : Filling.buildFile bs [] = .error e es) :
    ∃ s, read (.ofBytes bs folder, notes) = .error e s := by
  obtain ⟨x, xs, rfl⟩ := List.exists_cons_of_ne_nil hbs
  unfold read
  rw [build_bind]
  simp only [Build.ofBytes, h]
  exact ⟨_, rfl⟩

theorem buildFile_of_write (h : write (.ofData data folder, notes) =
    .ok () ({ Build.ofData data folder with content := some bs }, notes)) :
    ∃ d, Writing.buildFile (.dict data) .empty = .ok () d ∧ d.bytes = bs := by
  have hdata : data ≠ [] := by
    rintro rfl
    cases h
  rw [write_eq hdata] at h
  cases hfile : Writing.buildFile (.dict data) .empty with
  | ok u d =>
    rw [hfile] at h
    cases h
    exact ⟨d, rfl, rfl⟩
  | error e d =>
    rw [hfile] at h
    cases h

end Building

theorem Bank.bankFile_of_write {data : Members} {bs : Bytes}
    (h : (Bank.ofData data).write = ({ Bank.ofData data with content := some bs }, none)) :
    ∃ d, Writing.bankFile (.dict data) .empty = .ok () d ∧ d.bytes = bs := by
  have hdata : data ≠ [] := by
    rintro rfl
    cases h
  cases hfile : Writing.bankFile (.dict data) .empty with
  | ok u d =>
    rw [Bank.write_of_ok hdata hfile] at h
    cases h
    exact ⟨d, rfl, rfl⟩
  | error e d =>
    rw [Bank.write_of_error hdata hfile] at h
    cases h

theorem Bank.write_of_none {data : Members} (hdata : data ≠ [])
    (h : (Bank.ofData data).write.2 = none) :
    ∃ c, (Bank.ofData data).write = ({ Bank.ofData data with content := some c }, none) := by
  cases hfile : Writing.bankFile (.dict data) .empty with
  | ok u d => exact ⟨_, Bank.write_of_ok hdata hfile⟩
  | error e d =>
    rw [Bank.write_of_error hdata hfile] at h
    cases h

/-- **A file that is cut off is noticed, and what stands behind a file is not read.** Of the content
that data of builds with frames of finite sizes are written as, or data of banks with finite rates,
every part but nothing and all of it stops the reading at a field. With other bytes behind it, it is
read as the same data. -/
theorem truncation_is_noticed (data : Members) :
    (∀ folder notes c,
      Building.write (.ofData data folder, notes) =
        .ok () ({ Build.ofData data folder with content := some c }, notes) →
      FiniteFrames (.dict data) →
      ∃ es,
        (∀ rest, Building.read (.ofBytes (c ++ rest) folder, notes) =
          .ok () ({ Build.ofBytes (c ++ rest) folder with data := es }, notes)) ∧
        ∀ p, p <+: c → p ≠ [] → p ≠ c →
          ∃ s, Building.read (.ofBytes p folder, notes) = .error .field s) ∧
    ∀ c, (Bank.ofData data).write = ({ Bank.ofData data with content := some c }, none) →
      FiniteRates (.dict data) →
      ∃ es,
        (∀ rest, (Bank.ofBytes (c ++ rest)).read =
          ({ Bank.ofBytes (c ++ rest) with data := es }, none)) ∧
        ∀ p, p <+: c → p ≠ [] → p ≠ c → ∃ b, (Bank.ofBytes p).read = (b, some .field) := by
  constructor
  · intro folder notes c hwrite hfinite
    obtain ⟨d, hd, rfl⟩ := Building.buildFile_of_write hwrite
    obtain ⟨parts, hexact⟩ := exact_buildFile hfinite hd
    have hne := hexact.ne_nil rfl
    refine ⟨parts.fill [], fun rest => ?_, fun p hp hempty hwhole => ?_⟩
    · exact Building.read_of_ok (List.append_ne_nil_of_left_ne_nil hne rest)
        (buildFile_of_ok (hexact.reads rest) []) folder notes
    · obtain ⟨es, hes⟩ := buildFile_of_error (hexact.cut hp hwhole) []
      exact Building.read_of_error hempty hes
  · intro c hwrite hfinite
    obtain ⟨d, hd, rfl⟩ := Bank.bankFile_of_write hwrite
    obtain ⟨as, names, hexact, hknown⟩ := exact_bankFile hfinite hd
    have hne := hexact.ne_nil rfl
    refine ⟨(bankData as names).1, fun rest => ?_, fun p hp hempty hwhole => ?_⟩
    · rw [Bank.read_ofBytes (List.append_ne_nil_of_left_ne_nil hne rest),
        readBankFile_of_ok (hexact.reads rest), bankData_of_known hknown]
    · rw [Bank.read_ofBytes hempty, readBankFile_of_error (hexact.cut hp hwhole)]
      exact ⟨_, rfl⟩

theorem exists_mem_of_named {es : Members} {name : String} {v : Datum}
    (h : named (.dict es) name = .ok v) : ∃ k, (k, v) ∈ es := by
  unfold named memberAt at h
  cases hv : Datum.lookup es (.str name) with
  | none =>
    simp only [hv] at h
    cases h
  | some w =>
    simp only [hv] at h
    cases h
    obtain ⟨e, he, rfl⟩ := Option.map_eq_some_iff.mp hv
    exact ⟨e.1, List.mem_of_find?_eq_some he⟩

theorem BuildContent.Describes.finite {b : BuildContent} {data : Datum} (h : b.Describes data) :
    FiniteFrames data := by
  intro symbols name frames items hsymbols hframes hitems f hf side hside v hv
  obtain ⟨es, hes, hdescribes⟩ := h.symbols
  rw [hes] at hsymbols
  cases hsymbols
  obtain ⟨k, hk⟩ := exists_mem_of_named hframes
  obtain ⟨s, -, fs, he, hfs⟩ := Rows.exists_of_mem_right hdescribes.flip hk
  cases he
  cases hitems
  obtain ⟨g, -, hg⟩ := Rows.exists_of_mem_right hfs.flip hf
  rcases List.mem_pair.mp hside with rfl | rfl
  · rw [hg.width] at hv
    cases hv
    exact finiteDouble_int _
  · rw [hg.height] at hv
    cases hv
    exact finiteDouble_int _

theorem truncation_is_noticed_lantern : (∃ c,
    Building.write (.ofData lantern.toData "", []) =
      .ok () ({ Build.ofData lantern.toData "" with content := some c }, []) ∧
    FiniteFrames (.dict lantern.toData) ∧
    ∀ p, p <+: c → p ≠ [] → p ≠ c →
      ∃ s, Building.read (.ofBytes p "", []) = .error .field s) ∧ ∃ c,
    (Bank.ofData wardrobeData).write =
      ({ Bank.ofData wardrobeData with content := some c }, none) ∧
    FiniteRates (.dict wardrobeData) ∧
    ∀ p, p <+: c → p ≠ [] → p ≠ c → ∃ b, (Bank.ofBytes p).read = (b, some .field) := by
  constructor
  · have hfits : lantern.Fits := by
      constructor <;> decide
    obtain ⟨d, hd, -⟩ := (lantern.writes lantern.describes_toData).done hfits
    have hdata : lantern.toData ≠ [] := List.cons_ne_nil _ _
    have hwrite := Building.write_eq hdata "" []
    rw [hd] at hwrite
    have hfinite := lantern.describes_toData.finite
    obtain ⟨es, -, hcut⟩ := (truncation_is_noticed lantern.toData).1 "" [] _ hwrite hfinite
    exact ⟨_, hwrite, hfinite, hcut⟩
  · obtain ⟨c, hwrite⟩ := Bank.write_of_none (show wardrobeData ≠ [] from List.cons_ne_nil _ _)
      (by decide +kernel)
    have hfinite : FiniteRates (.dict wardrobeData) := by
      intro banks entries hbanks hentries b hb animations hanimations a ha v hv
      cases hbanks
      cases hentries
      simp only [List.mem_cons, List.not_mem_nil, or_false] at hb
      rcases hb with rfl | rfl | rfl <;> cases hanimations <;> cases List.mem_singleton.mp ha <;>
        cases hv <;> exact finiteDouble_int _
    obtain ⟨es, -, hcut⟩ := (truncation_is_noticed wardrobeData).2 c hwrite hfinite
    exact ⟨c, hwrite, hfinite, hcut⟩

end WikiFeed.Sprite
