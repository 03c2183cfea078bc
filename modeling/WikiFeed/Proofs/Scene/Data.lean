import WikiFeed.Proofs.Sprite.Calculation
import WikiFeed.Proofs.Sprite.Members
import WikiFeed.Scene.Write

/-! # Data that scenes are made of

What a scene is made of: symbols with their frames, and banks with their animations, the frames of
these, and what is drawn in each of them. The predicates ask for the members that are used and for
the kinds of their values, and for nothing else. -/

namespace WikiFeed.Scene

open Sprite

def HasNumber (d : Datum) (name : String) : Prop := ∃ v, named d name = .ok v ∧ IsNumber v

def HasWhole (d : Datum) (name : String) : Prop := ∃ n : Int, named d name = .ok (.int n)

def HasPositive (d : Datum) (name : String) : Prop := ∃ n : Int, 0 < n ∧ named d name = .ok (.int n)

/-! ### Builds -/

/-- The data of a frame of a symbol: how long it lasts, its place and its size. -/
structure IsFrame (d : Datum) : Prop where
  duration : HasWhole d "duration"
  x : HasNumber d "x"
  y : HasNumber d "y"
  w : HasPositive d "w"
  h : HasPositive d "h"

def pictureName (symbol : String) (number : Nat) : String :=
  symbol ++ "-" ++ Decimal.intText number

/-- Names without quotes. All names of letters, digits, `_` and `-` are. -/
def Unquoted (s : String) : Prop := '\'' ∉ s.toList

instance (s : String) : Decidable (Unquoted s) := inferInstanceAs (Decidable (_ ∉ _))

/-- The data of a symbol of which there are pictures: a name and frames, each with a number from
zero on. -/
def IsSymbol (portraits : Portraits) (s : Datum × Datum) : Prop :=
  ∃ name fs, s = (.str name, .list fs) ∧ Unquoted name ∧ ∀ f ∈ fs, IsFrame f ∧
    ∃ n : Nat, named f "framenum" = .ok (.int n) ∧ (portraits.lookup (pictureName name n)).isSome

/-! ### Banks -/

/-- The data of something that is drawn: the symbol and the number of its frame, a layer, and a
transformation. -/
structure IsDrawn (e : Datum) (name : String) (number : Nat) : Prop where
  unquoted : Unquoted name
  name : named e "name" = .ok (.str name)
  frame : named e "frame" = .ok (.int number)
  layer : ∃ v, named e "layername" = .ok v
  transform : ∀ t ∈ transformNames, HasNumber e t

/-- The data of a frame of an animation in which some symbols are drawn. -/
structure IsStill (f : Datum) (es : List Datum) : Prop where
  elements : named f "elements" = .ok (.list es)
  drawn : ∀ e ∈ es, ∃ name number, IsDrawn e name number
  w : HasNumber f "w"

/-- The data of an animation with thirty frames in a second. -/
structure IsMotion (a : Datum) (fs : List Datum) : Prop where
  rate : named a "framerate" = .ok (.int 30)
  count : HasWhole a "numframes"
  frames : named a "frames" = .ok (.list fs)
  stills : ∀ f ∈ fs, ∃ es, IsStill f es

def stillTime : Int := 33

def IsBank (b : Datum × Datum) (as : List (Datum × Datum)) : Prop :=
  ∃ name, b = (.str name, .dict as) ∧ ∀ a ∈ as, ∃ title fs, a.1 = .str title ∧ IsMotion a.2 fs

def HasBanks (data : Members) (bs : List (Datum × Datum)) : Prop :=
  named (.dict data) "banks" = .ok (.dict bs) ∧ ∀ b ∈ bs, ∃ as, IsBank b as

/-! ### All that is drawn -/

/-- Something that is so of each symbol and its frame that are drawn in a frame. -/
def AllInStill (Q : String → Nat → Prop) (f : Datum) : Prop :=
  ∀ es, IsStill f es → ∀ e ∈ es, ∀ name number, IsDrawn e name number → Q name number

def AllInMotion (Q : String → Nat → Prop) (a : Datum) : Prop :=
  ∀ fs, IsMotion a fs → ∀ f ∈ fs, AllInStill Q f

def AllInBank (Q : String → Nat → Prop) (b : Datum × Datum) : Prop :=
  ∀ as, IsBank b as → ∀ a ∈ as, AllInMotion Q a.2

section Monotone

variable {Q Q' : String → Nat → Prop} (h : ∀ name number, Q name number → Q' name number)

include h

theorem AllInStill.imp {f : Datum} (hf : AllInStill Q f) : AllInStill Q' f :=
  fun es hes e he name number hdrawn => h name number (hf es hes e he name number hdrawn)

theorem AllInMotion.imp {a : Datum} (ha : AllInMotion Q a) : AllInMotion Q' a :=
  fun fs hfs f hf => (ha fs hfs f hf).imp h

theorem AllInBank.imp {b : Datum × Datum} (hb : AllInBank Q b) : AllInBank Q' b :=
  fun as has a ha => (hb as has a ha).imp h

end Monotone

/-! ### What is in them -/

theorem IsBank.entriesOf {b : Datum × Datum} {as : List (Datum × Datum)} (h : IsBank b as) :
    Sprite.entriesOf b.2 = .ok as := by
  obtain ⟨name, rfl, -⟩ := h
  rfl

theorem IsBank.motions {b : Datum × Datum} {as : List (Datum × Datum)} (h : IsBank b as) :
    ∀ a ∈ as, ∃ title fs, a.1 = .str title ∧ IsMotion a.2 fs := by
  obtain ⟨name, -, has⟩ := h
  exact has

theorem IsDrawn.unique {e : Datum} {name name' : String} {number number' : Nat}
    (h : IsDrawn e name number) (h' : IsDrawn e name' number') :
    name = name' ∧ number = number' := by
  have hname := h.name.symm.trans h'.name
  have hframe := h.frame.symm.trans h'.frame
  simp only [Except.ok.injEq, Datum.str.injEq, Datum.int.injEq, Int.ofNat_inj] at hname hframe
  exact ⟨hname, hframe⟩

/-! ### Folders of what is drawn -/

/-- Something that is drawn gets a folder, and there a frame if it has none. -/
theorem addDrawn_keyed {κ : Type} [BEq κ] [LawfulBEq κ] {key : κ → Datum} (hkey : Keying key)
    {f e : Datum} {name : String} {k : κ} (hname : named e "name" = .ok (.str name))
    (hframe : named e "frame" = .ok (key k)) (c : List (String × List (κ × Datum))) :
    let members (c : List (String × List (κ × Datum))) : Members :=
      keyed .str (c.map fun f => (f.1, .dict (keyed key f.2)))
    let own := (c.lookup name).getD []
    addDrawn f (members c) e =
      if (own.lookup k).isSome then .ok (members (Places.put c name own))
      else do
        let w ← named f "w"
        let side ← calculated (← numberOf (← greatest [w, .int 1])).truncate
        return members (Places.put c name
          (Places.put own k (unknownFrame (key k) (.int side) (.int side)))) := by
  intro members own
  have hput (fs : List (κ × Datum)) : members (Places.put c name fs) =
      Datum.put (members c) (.str name) (.dict (keyed key fs)) :=
    (put_keyed_map keying_str (fun fs => .dict (keyed key fs)) c name fs).symm
  have hlookup : Datum.lookup (members c) (.str name) =
      (c.lookup name).map fun fs => .dict (keyed key fs) :=
    lookup_keyed_map keying_str (fun fs => .dict (keyed key fs)) c name
  unfold own
  simp only [hput, ← put_keyed hkey, ← lookup_keyed hkey, addDrawn, hname, hframe, hlookup,
    Outcome.ok_bind]
  cases c.lookup name <;> rfl

end WikiFeed.Scene
