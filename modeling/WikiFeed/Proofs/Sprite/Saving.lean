import WikiFeed.Proofs.Invariants
import WikiFeed.Proofs.Outcome
import WikiFeed.Studio.Save

/-! # What saving writes

A bank and a build keep the content of their file beside their data, and saving puts the content
into the file if there is any. So what is saved is the data at the moment of the last writing.

* A merge of banks ends with a writing, so a bank saves its data after each merge or writing
  (`Bank.fresh_run`).
* A merge of builds and a new name change the data alone (`Build.content_run`). A build that has no
  content saves its data, a build with content saves what it was read from or last written to. -/

namespace WikiFeed.Sprite

open Outcome (bind_of_eq_ok bind_eq_ok)
open Std.Do Building
open Studio (Target saveBank saveBuild saveContent onBank onBuild)

set_option mvcgen.warning false

/-! ### Operations -/

/-- An operation on a bank; a bank that is merged into it is ready. -/
inductive Bank.Op where
  | read
  | write
  | merge (other : Bank)

def Bank.sound? : Bank × Option Fault → Option Bank
  | (b, none) => some b
  | (_, some _) => none

def Bank.Op.run? (b : Bank) : Bank.Op → Option Bank
  | .read => sound? b.read
  | .write => sound? b.write
  | .merge other => (sound? b.ready).bind fun b => sound? ((b.merge other).1.1, (b.merge other).2)

def Bank.run? (b : Bank) (ops : List Bank.Op) : Option Bank := ops.foldlM Bank.Op.run? b

/-- An operation on a build; a build merged into it is ready, and may be the build itself. -/
inductive Build.Op where
  | read
  | write
  | merge (other : Build) (itself : Bool)
  | rename (name : String)

def Build.Op.work : Build.Op → Building Unit
  | .read => Building.read
  | .write => Building.write
  | .merge other itself => do
    Building.ready
    Building.merge other itself
  | .rename name => Building.put "name" (.str name)

def Build.Op.run? (b : Build) (op : Build.Op) : Option Build :=
  match op.work (b, []) with
  | .ok _ s => some s.1
  | .error _ _ => none

def Build.run? (b : Build) (ops : List Build.Op) : Option Build := ops.foldlM Build.Op.run? b

def Build.Op.Changes : Build.Op → Prop
  | .read => False
  | .write => False
  | .merge _ _ => True
  | .rename _ => True

def Build.Plain (b : Build) : Prop := b.portraits = [] ∧ b.pages = []

def Build.Op.Plain : Build.Op → Prop
  | .merge other _ => other.portraits = []
  | .read => True
  | .write => True
  | .rename _ => True

/-! ### What data are written as -/

def Bank.bytes? (data : Members) : Option Bytes :=
  if data.isEmpty then none
  else match Writing.bankFile (.dict data) .empty with
    | .ok _ d => some d.bytes
    | .error _ _ => none

def Build.bytes? (data : Members) : Option Bytes :=
  if data.isEmpty then none
  else match Writing.buildFile (.dict data) .empty with
    | .ok _ d => some d.bytes
    | .error _ _ => none

/-- The file that a bank is saved as: only in an archive it can be named. -/
def Bank.fileIn (name : Option String) : Target → String
  | .folder _ => "anim.bin"
  | .archive _ => name.getD "anim.bin"

/-- Saving the bank in any studio puts these bytes into the target. -/
def Bank.Saves (b : Bank) (bs : Bytes) : Prop :=
  ∀ (m : Studio) (i : Nat), m.banks[i]? = some b → ∀ (t : Target) (name : Option String),
    saveBank i t name m = (do saveContent t (fileIn name t) (some bs); return t : Work Target)
      { m with banks := m.banks.set i { b with content := some bs } }

/-- Saving the build in any studio puts these bytes into the target. -/
def Build.Saves (b : Build) (bs : Bytes) : Prop :=
  ∀ (m : Studio) (i : Nat), m.builds[i]? = some b → ∀ (t : Target) (name : Option String),
    saveBuild i t name m = (do saveContent t "build.bin" (some bs); return t : Work Target)
      { m with builds := m.builds.set i { b with content := some bs } }

/-! ### Banks -/

variable {op : Op} {m : Studio} {i : Nat}

namespace Bank

variable {b b' : Bank}

theorem sound?_eq_some {r : Bank × Option Fault} : sound? r = some b ↔ r = (b, none) := by
  obtain ⟨c, e⟩ := r
  cases e <;> simp [sound?]

def Fresh (b : Bank) : Prop := b.write = (b, none)

theorem fresh_of_write (h : b.write = (b', none)) : b'.Fresh := by
  unfold Fresh
  unfold write at h ⊢
  by_cases hdata : b.data.isEmpty = true
  · rw [if_pos hdata] at h
    cases h
    rw [if_pos hdata]
  · rw [if_neg hdata] at h
    cases hfile : Writing.bankFile (.dict b.data) .empty with
    | error e d =>
      rw [hfile] at h
      cases h
    | ok u d =>
      rw [hfile] at h
      cases h
      rw [if_neg hdata, hfile]

theorem fresh_of_merge {other : Bank} (h : sound? ((b.merge other).1.1, (b.merge other).2) =
      some b') :
    b'.Fresh := by
  unfold merge at h
  generalize mergeData b.data other.data = merged at h
  obtain ⟨⟨data, notes⟩, e⟩ := merged
  cases e with
  | some e => exact absurd h (by simp [sound?])
  | none => exact fresh_of_write (sound?_eq_some.mp h)

theorem fresh_run (h : op.run? b = some b') (hop : op ≠ .read) : b'.Fresh := by
  cases op with
  | read => exact absurd rfl hop
  | write => exact fresh_of_write (sound?_eq_some.mp h)
  | merge other =>
    obtain ⟨c, -, h⟩ := Option.bind_eq_some_iff.mp h
    exact fresh_of_merge h

theorem fresh_run?_of_last {op : Op} (hop : op ≠ .read) : ∀ {after : List Op} {b : Bank},
    b.run? (op :: after) = some b' → .read ∉ after → b'.Fresh
  | [], b, h, _ => by
    obtain ⟨c, hc, h⟩ := Option.bind_eq_some_iff.mp h
    cases h
    exact fresh_run hc hop
  | next :: after, b, h, hread => by
    obtain ⟨c, -, h⟩ := Option.bind_eq_some_iff.mp h
    rw [List.mem_cons, not_or] at hread
    exact fresh_run?_of_last (Ne.symm hread.1) h hread.2

theorem run?_append (before after : List Op) :
    b.run? (before ++ after) = (b.run? before).bind fun c => c.run? after := by
  unfold run?
  rw [List.foldlM_append]
  rfl

theorem exists_bytes_of_fresh (h : b.Fresh) (hdata : b.data ≠ []) :
    ∃ bs, bytes? b.data = some bs ∧ b.content = some bs := by
  unfold Fresh write at h
  unfold bytes?
  have hempty : ¬b.data.isEmpty = true := by simpa using hdata
  rw [if_neg hempty] at h ⊢
  cases hfile : Writing.bankFile (.dict b.data) .empty with
  | error e d =>
    rw [hfile] at h
    exact absurd (congrArg Prod.snd h) (Option.some_ne_none e)
  | ok u d =>
    rw [hfile] at h
    have hcontent := congrArg (·.1.content) h
    exact ⟨d.bytes, rfl, hcontent.symm⟩

theorem written_of_fresh (h : b.Fresh) : b.written = (b, none) := by
  unfold written
  split
  · exact h
  · exact h
  · rfl

theorem onBank_of_sound (hb : m.banks[i]? = some b) {f : Bank → Bank × Option Fault}
    (hf : f b = (b', none)) : onBank i f m = .ok () { m with banks := m.banks.set i b' } := by
  simp [onBank, Studio.bank, hb, hf, bind, EStateM.bind, get, getThe, MonadStateOf.get, EStateM.get,
    pure, EStateM.pure, modify, modifyGet, MonadStateOf.modifyGet, EStateM.modifyGet]

theorem bank_eq_ok (hb : m.banks[i]? = some b) : Studio.bank i m = .ok b m := by
  simp [Studio.bank, hb, bind, EStateM.bind, get, getThe, MonadStateOf.get, EStateM.get, pure,
    EStateM.pure]

theorem saves_of_fresh (h : b.Fresh) {bs : Bytes} (hbs : b.content = some bs) : b.Saves bs := by
  intro m i hb t name
  have hsame : { b with content := some bs } = b := by rw [← hbs]
  have hlength : i < m.banks.length := (List.getElem?_eq_some_iff.mp hb).1
  have hagain : (m.banks.set i b)[i]? = some b := List.getElem?_set_self hlength
  unfold saveBank
  rw [hsame, bind_of_eq_ok (onBank_of_sound hb (written_of_fresh h))]
  rw [bind_of_eq_ok (bank_eq_ok hagain), hbs]
  cases t <;> rfl

end Bank

/-! ### Builds -/

namespace Build

def Holds (content : Option Bytes) (s : Build × List String) : Prop :=
  s.1.content = content ∧ s.1.Plain

variable {content : Option Bytes}

@[spec]
theorem keeps_lift {α : Type} (r : Result α) : Keeps (Holds content) (lift r) := by
  unfold lift
  split <;> mvcgen

@[spec]
theorem keeps_build : Keeps (Holds content) build := by
  mvcgen

@[spec]
theorem keeps_member (name : String) : Keeps (Holds content) (member name) := by
  unfold member
  mvcgen

@[spec]
theorem keeps_put (name : String) (d : Datum) : Keeps (Holds content) (put name d) := by
  mvcgen

@[spec]
theorem keeps_note (line : String) : Keeps (Holds content) (note line) := by
  mvcgen

@[spec]
theorem keeps_mergeSymbol (e : Datum × Datum) : Keeps (Holds content) (mergeSymbol e) := by
  unfold mergeSymbol
  have hnotes (notes : List String) : Keeps (Holds content) (notes.forM note) :=
    Keeps.forM fun _ _ => keeps_note _
  mvcgen [hnotes]

theorem keeps_merge {other : Build} (hother : other.portraits = []) (itself : Bool) :
    Keeps (Holds content) (merge other itself) := by
  unfold merge
  rw [hother]
  have hsymbols (es : List (Datum × Datum)) :
      Keeps (Holds content) (es.forM mergeSymbol) :=
    Keeps.forM fun _ _ => keeps_mergeSymbol _
  mvcgen [hsymbols]

@[spec]
theorem keeps_read : Keeps (Holds content) read := by
  unfold Building.read Building.change Building.build
  mvcgen
  -- frames would be cut from the pages, and there are none
  rename Holds content _ => hholds
  rename (!_) = true => hpages
  simp [hholds.2.2] at hpages

@[spec]
theorem keeps_ready : Keeps (Holds content) ready := by
  unfold ready
  mvcgen

theorem keeps_work (hop : op.Plain) (hwrite : op ≠ .write) : Keeps (Holds content) op.work := by
  cases op with
  | read => exact keeps_read
  | write => exact absurd rfl hwrite
  | rename name => exact keeps_put _ _
  | merge other itself =>
    have hmerge : Keeps (Holds content) (merge other itself) := keeps_merge hop itself
    unfold Op.work
    mvcgen [hmerge]

variable {b b' : Build} {bs : Bytes}

theorem run?_eq_some (h : op.run? b = some b') : ∃ notes, op.work (b, []) = .ok () (b', notes) := by
  unfold Op.run? at h
  split at h
  · rename_i s hs
    cases h
    exact ⟨s.2, hs⟩
  · cases h

theorem content_run (hplain : b.Plain) (hop : op.Plain) (hwrite : op ≠ .write)
    (h : op.run? b = some b') : b'.content = b.content ∧ b'.Plain := by
  obtain ⟨notes, hrun⟩ := run?_eq_some h
  exact (keeps_iff.mp (keeps_work hop hwrite) (b, []) ⟨rfl, hplain⟩).1 _ _ hrun

theorem write_of_isEmpty (h : b.data.isEmpty = true) (notes : List String) :
    write (b, notes) = .ok () (b, notes) := by
  change (if b.data.isEmpty then _ else _ : Building Unit) (b, notes) = _
  rw [if_pos h]
  rfl

theorem write_of_not_isEmpty (h : ¬b.data.isEmpty = true) (notes : List String) :
    write (b, notes) =
      match Writing.buildFile (.dict b.data) .empty with
      | .ok _ d => .ok () ({ b with content := some d.bytes }, notes)
      | .error e d => .error e ({ b with content := some d.bytes }, notes) := by
  change (if b.data.isEmpty then _ else _ : Building Unit) (b, notes) = _
  rw [if_neg h]
  cases Writing.buildFile (.dict b.data) .empty <;> rfl

theorem write_of_bytes (h : bytes? b.data = some bs) (notes : List String) :
    write (b, notes) = .ok () ({ b with content := some bs }, notes) := by
  unfold bytes? at h
  by_cases hdata : b.data.isEmpty = true
  · rw [if_pos hdata] at h
    cases h
  · rw [if_neg hdata] at h
    rw [write_of_not_isEmpty hdata]
    cases hfile : Writing.buildFile (.dict b.data) .empty with
    | error e d =>
      rw [hfile] at h
      cases h
    | ok u d =>
      rw [hfile] at h
      cases h
      rfl

theorem write_run (h : Op.run? b .write = some b') :
    (b.data = [] ∧ b' = b) ∨ ∃ bs, bytes? b.data = some bs ∧
      b' = { b with content := some bs } := by
  obtain ⟨notes, hrun⟩ := run?_eq_some h
  change write (b, []) = _ at hrun
  by_cases hdata : b.data.isEmpty = true
  · rw [write_of_isEmpty hdata] at hrun
    cases hrun
    exact .inl ⟨List.isEmpty_iff.mp hdata, rfl⟩
  · rw [write_of_not_isEmpty hdata] at hrun
    right
    unfold bytes?
    rw [if_neg hdata]
    cases hfile : Writing.buildFile (.dict b.data) .empty with
    | error e d =>
      rw [hfile] at hrun
      cases hrun
    | ok u d =>
      rw [hfile] at hrun
      cases hrun
      exact ⟨d.bytes, rfl, rfl⟩

theorem plain_run (hplain : b.Plain) (hop : op.Plain) (h : op.run? b = some b') : b'.Plain := by
  by_cases hwrite : op = .write
  · subst hwrite
    rcases write_run h with ⟨-, rfl⟩ | ⟨bs, -, rfl⟩
    · exact hplain
    · exact hplain
  · exact (content_run hplain hop hwrite h).2

theorem plain_run? : ∀ {ops : List Op} {b : Build}, b.Plain → (∀ op ∈ ops, op.Plain) →
    b.run? ops = some b' → b'.Plain
  | [], b, hplain, _, h => by
    cases h
    exact hplain
  | op :: ops, b, hplain, hops, h => by
    obtain ⟨c, hc, h⟩ := Option.bind_eq_some_iff.mp h
    have hfirst := plain_run hplain (hops op List.mem_cons_self) hc
    exact plain_run? hfirst (fun next hnext => hops next (List.mem_cons_of_mem op hnext)) h

theorem ne_write_of_changes (h : op.Changes) : op ≠ .write := by
  rintro rfl
  exact h

theorem content_run? : ∀ {ops : List Op} {b : Build}, b.Plain → (∀ op ∈ ops, op.Plain) →
    (∀ op ∈ ops, op.Changes) → b.run? ops = some b' → b'.content = b.content
  | [], b, _, _, _, h => by
    cases h
    rfl
  | op :: ops, b, hplain, hops, hchanges, h => by
    obtain ⟨c, hc, h⟩ := Option.bind_eq_some_iff.mp h
    have hwrite := ne_write_of_changes (hchanges op List.mem_cons_self)
    obtain ⟨hcontent, hplain⟩ := content_run hplain (hops op List.mem_cons_self) hwrite hc
    rw [← hcontent]
    exact content_run? hplain (fun next hnext => hops next (List.mem_cons_of_mem op hnext))
      (fun next hnext => hchanges next (List.mem_cons_of_mem op hnext)) h

theorem run?_append (before after : List Op) :
    b.run? (before ++ after) = (b.run? before).bind fun c => c.run? after := by
  unfold run?
  rw [List.foldlM_append]
  rfl

theorem content_of_last_write {ops : List Op} (h : b.run? ops = some b')
    (hlast : ops.getLast? = some .write) (hdata : b'.data ≠ []) : bytes? b'.data = b'.content := by
  obtain ⟨before, rfl⟩ := List.getLast?_eq_some_iff.mp hlast
  rw [run?_append] at h
  obtain ⟨c, -, h⟩ := Option.bind_eq_some_iff.mp h
  obtain ⟨d, hd, h⟩ := Option.bind_eq_some_iff.mp h
  cases h
  rcases write_run hd with ⟨hempty, rfl⟩ | ⟨bs, hbs, rfl⟩
  · exact absurd hempty hdata
  · exact hbs

/-! ### Saving builds -/

theorem written_of_content (h : b.content = some bs) (hne : bs ≠ []) (notes : List String) :
    written (b, notes) = .ok () (b, notes) := by
  obtain ⟨x, xs, rfl⟩ := List.exists_cons_of_ne_nil hne
  obtain ⟨content, data, portraits, pages, workFolder⟩ := b
  cases h
  rfl

theorem written_of_no_content (h : b.content.getD [] = []) (hbs : bytes? b.data = some bs)
    (notes : List String) : written (b, notes) = .ok () ({ b with content := some bs }, notes) := by
  rw [← write_of_bytes hbs]
  obtain ⟨content, data, portraits, pages, workFolder⟩ := b
  cases content with
  | none => rfl
  | some old =>
    cases h
    rfl

theorem onBuild_of_ok (hb : m.builds[i]? = some b) {body : Building Unit}
    (hbody : body (b, []) = .ok () (b', [])) :
    onBuild i body m = .ok () { m with builds := m.builds.set i b' } := by
  simp [onBuild, Studio.build, Studio.print, hb, hbody, bind, EStateM.bind, get, getThe,
    MonadStateOf.get, EStateM.get, pure, EStateM.pure, modify, modifyGet, MonadStateOf.modifyGet,
    EStateM.modifyGet]

theorem build_eq_ok (hb : m.builds[i]? = some b) : Studio.build i m = .ok b m := by
  simp [Studio.build, hb, bind, EStateM.bind, get, getThe, MonadStateOf.get, EStateM.get, pure,
    EStateM.pure]

theorem saves_of_written (hplain : b.Plain)
    (h : written (b, []) = .ok () ({ b with content := some bs }, [])) : b.Saves bs := by
  intro m i hb t name
  have hlength : i < m.builds.length := (List.getElem?_eq_some_iff.mp hb).1
  have hagain : (m.builds.set i { b with content := some bs })[i]? =
      some { b with content := some bs } := List.getElem?_set_self hlength
  have hportraits : (!b.portraits.isEmpty) = false := by rw [hplain.1]; rfl
  have hpages : b.pages = [] := hplain.2
  unfold saveBuild
  rw [bind_of_eq_ok (build_eq_ok hb), hportraits, if_neg Bool.false_ne_true]
  beta_reduce
  rw [bind_of_eq_ok (onBuild_of_ok hb h), bind_of_eq_ok (build_eq_ok hagain)]
  rw [hpages] at hagain ⊢
  -- without pages nothing but the content is saved, whatever the target
  cases t with
  | folder p =>
    dsimp only
    rw [pure_bind, bind_of_eq_ok (build_eq_ok hagain)]
  | archive p =>
    dsimp only
    rw [pure_bind, bind_of_eq_ok (build_eq_ok hagain)]

end Build

/-! ### Histories -/

section Histories

variable {a₀ a other : Bank} {before after : List Bank.Op}
variable {b₀ c b : Build} {early late : List Build.Op}

/-- What is saved after a history of operations.

A bank (`a`) saves its current data after a merge that no reading follows.

A build without pictures (`b`), whose history ends with changes of its data (`late`), saves its
current data if the history ends with a writing, or if there was no content before these changes. If
there was, it saves that content: the data as they were when they were last written. -/
theorem saved_is_last_written
    (hbank : a₀.run? (before ++ .merge other :: after) = some a) (hread : .read ∉ after)
    (hdata : a.data ≠ [])
    (hplain : b₀.Plain) (hops : ∀ op ∈ early ++ late, op.Plain) (hearly : b₀.run? early = some c)
    (hlate : c.run? late = some b) (hchanges : ∀ op ∈ late, op.Changes) :
    (∃ bs, Bank.bytes? a.data = some bs ∧ a.Saves bs) ∧
    (∀ bs, Build.bytes? b.data = some bs →
      (late = [] → early.getLast? = some .write → b.Saves bs) ∧
      (c.content.getD [] = [] → b.Saves bs)) ∧
    ∀ old, c.content = some old → old ≠ [] → b.Saves old ∧
      (c.data ≠ [] → early.getLast? = some .write → Build.bytes? c.data = some old) := by
  constructor
  · rw [Bank.run?_append] at hbank
    obtain ⟨d, -, hbank⟩ := Option.bind_eq_some_iff.mp hbank
    have hfresh := Bank.fresh_run?_of_last Bank.Op.noConfusion hbank hread
    obtain ⟨bs, hbs, hcontent⟩ := Bank.exists_bytes_of_fresh hfresh hdata
    exact ⟨bs, hbs, Bank.saves_of_fresh hfresh hcontent⟩
  · rw [List.forall_mem_append] at hops
    have hplainEarly := Build.plain_run? hplain hops.1 hearly
    have hplainLate := Build.plain_run? hplainEarly hops.2 hlate
    have hcontent := Build.content_run? hplainEarly hops.2 hchanges hlate
    refine ⟨fun bs hbs => ⟨fun hnone hlast => ?_, fun hempty => ?_⟩, fun old hold hne => ⟨?_, ?_⟩⟩
    · subst hnone
      cases hlate
      have hdata : c.data ≠ [] := by
        intro hdata
        rw [hdata] at hbs
        cases hbs
      have hsame := Build.content_of_last_write hearly hlast hdata
      rw [hbs] at hsame
      refine Build.saves_of_written hplainEarly ?_
      by_cases hne : bs = []
      · exact Build.written_of_no_content (by rw [← hsame, hne]; rfl) hbs []
      · rw [Build.written_of_content hsame.symm hne, hsame]
    · rw [← hcontent] at hempty
      exact Build.saves_of_written hplainLate (Build.written_of_no_content hempty hbs [])
    · rw [← hcontent] at hold
      refine Build.saves_of_written hplainLate ?_
      rw [Build.written_of_content hold hne, ← hold]
    · intro hdata hlast
      rw [Build.content_of_last_write hearly hlast hdata, hold]

end Histories

def sketch (symbols : Members) : Members :=
  [(.str "name", .str "a"), (.str "scale", .int 1), (.str "Atlas", .list []),
    (.str "Symbol", .dict symbols), (.str "Vert", .list [])]

def sketchFile : Bytes :=
  [0x42, 0x49, 0x4C, 0x44, 6, 0, 0, 0] ++ [0, 0, 0, 0, 0, 0, 0, 0] ++ [1, 0, 0, 0, 0x61] ++
    [0, 0, 0, 0, 0, 0, 0, 0, 0, 0, 0, 0]

def extendedSketch : Build :=
  { Build.ofData (sketch [(.str "s", .list [])]) "" with content := some sketchFile }

theorem run?_sketch :
    (Build.ofData (sketch []) "").run? [.write] =
        some { Build.ofData (sketch []) "" with content := some sketchFile } ∧
      Build.run? { Build.ofData (sketch []) "" with content := some sketchFile }
        [.merge (.ofData (sketch [(.str "s", .list [])]) "") false] = some extendedSketch := by
  constructor <;> cbv

theorem run?_bank :
    (Bank.ofData [(.str "banks", .dict [])]).run?
        ([.write] ++ .merge (.ofData [(.str "banks", .dict [(.str "b", .dict [])])]) :: []) =
      some ⟨some ([0x41, 0x4E, 0x49, 0x4D, 4] ++ List.replicate 23 0),
        [(.str "banks", .dict [(.str "b", .dict [])])]⟩ := by
  cbv

theorem saved_is_last_written_of_sketch :
    (∃ a bs, (Bank.ofData [(.str "banks", .dict [])]).run?
        [.write, .merge (.ofData [(.str "banks", .dict [(.str "b", .dict [])])])] = some a ∧
      a.data = [(.str "banks", .dict [(.str "b", .dict [])])] ∧ Bank.bytes? a.data = some bs ∧
      a.Saves bs) ∧
    extendedSketch.Saves sketchFile := by
  have hplain : (Build.ofData (sketch []) "").Plain := ⟨rfl, rfl⟩
  have hops : ∀ op ∈ [Build.Op.write] ++
      [.merge (.ofData (sketch [(.str "s", .list [])]) "") false], op.Plain := by
    simp [Build.Op.Plain, Build.ofData]
  have hchanges : ∀ op ∈ [Build.Op.merge (.ofData (sketch [(.str "s", .list [])]) "") false],
      op.Changes := by
    simp [Build.Op.Changes]
  obtain ⟨⟨bs, hbs, hsaves⟩, -, hold⟩ := saved_is_last_written run?_bank List.not_mem_nil
    (List.cons_ne_nil _ _) hplain hops run?_sketch.1 run?_sketch.2 hchanges
  exact ⟨⟨_, bs, run?_bank, rfl, hbs, hsaves⟩, (hold sketchFile rfl (by decide)).1⟩

/-- A build that was written before a merge saves a file without what was merged. -/
theorem merged_build_saves_old_file :
    ∃ b, (Build.ofData (sketch []) "").run?
        [.write, .merge (.ofData (sketch [(.str "s", .list [])]) "") false] = some b ∧
      b.Saves sketchFile ∧ Build.bytes? b.data ≠ some sketchFile := by
  refine ⟨extendedSketch, ?_, ?_, ?_⟩
  · rw [← List.singleton_append, Build.run?_append, run?_sketch.1]
    exact run?_sketch.2
  · exact Build.saves_of_written ⟨rfl, rfl⟩ (Build.written_of_content rfl (by decide) [])
  · decide +kernel

end WikiFeed.Sprite
