/-!
Halves of surrogate pairs. A text is a sequence of code points, of which a half that stands alone is
no character. It is kept as two characters, a mark and one from the last plane, and the mark itself
is kept twice; so every sequence of code points has one text that keeps it (`codes_flatMap_keep`).
-/
namespace StateSpace.Text

def isHighHalf (code : Nat) : Bool := 0xd800 ≤ code && code < 0xdc00

def isLowHalf (code : Nat) : Bool := 0xdc00 ≤ code && code < 0xe000

def isHalf (code : Nat) : Bool := isHighHalf code || isLowHalf code

/-- The last code point, and the character that stands before a half. -/
def mark : Char := Char.ofNat 0x10ffff

/-- How far above itself a half is kept. -/
def lift : Nat := 0x100000

/-- The characters that keep a code point. -/
def keep (code : Nat) : List Char :=
  if isHalf code then [mark, Char.ofNat (code + lift)]
  else if code = mark.toNat then [mark, mark]
  else [Char.ofNat code]

/-- The code points that characters keep. -/
def codes : List Char → List Nat
  | [] => []
  | [c] => [c.toNat]
  | c :: d :: rest =>
      if c = mark then (if d = mark then mark.toNat else d.toNat - lift) :: codes rest
      else c.toNat :: codes (d :: rest)

theorem codes_mark (d : Char) (rest : List Char) :
    codes (mark :: d :: rest) =
      (if d = mark then mark.toNat else d.toNat - lift) :: codes rest := by
  simp [codes]

theorem codes_cons {c : Char} (h : c ≠ mark) (rest : List Char) :
    codes (c :: rest) = c.toNat :: codes rest := by
  cases rest <;> simp [codes, h]

theorem toNat_ofNat {code : Nat} (h : code.isValidChar) : (Char.ofNat code).toNat = code := by
  rw [Char.ofNat, dif_pos h]
  rfl

/-- A code point is read back from the characters that keep it. -/
theorem codes_keep {code : Nat} (h : code ≤ mark.toNat) (rest : List Char) :
    codes (keep code ++ rest) = code :: codes rest := by
  have hmark : mark.toNat = 0x10ffff := rfl
  unfold keep
  split
  · rename_i hhalf
    have hbounds : 0xd800 ≤ code ∧ code < 0xe000 := by
      simp [isHalf, isHighHalf, isLowHalf] at hhalf
      omega
    have hlifted : (Char.ofNat (code + lift)).toNat = code + lift :=
      toNat_ofNat (by simp only [lift, Nat.isValidChar]; omega)
    have hne : Char.ofNat (code + lift) ≠ mark := by
      intro heq
      have := congrArg Char.toNat heq
      rw [hlifted, hmark] at this
      simp only [lift] at this
      omega
    simp [codes_mark, hne, hlifted]
  · rename_i hwhole
    split
    · rename_i heq
      simp [codes_mark, heq]
    · rename_i hne
      have hvalid : (Char.ofNat code).toNat = code :=
        toNat_ofNat (by
          simp [isHalf, isHighHalf, isLowHalf] at hwhole
          simp only [Nat.isValidChar]
          omega)
      have hmarkless : Char.ofNat code ≠ mark := by
        intro heq
        exact hne (by rw [← hvalid, heq])
      rw [List.singleton_append, codes_cons hmarkless, hvalid]

/-- A sequence of code points is read back from the characters that keep it. -/
theorem codes_flatMap_keep (cs : List Nat) (h : ∀ code ∈ cs, code ≤ mark.toNat) :
    codes (cs.flatMap keep) = cs := by
  induction cs with
  | nil => rfl
  | cons code rest ih =>
    rw [List.flatMap_cons, codes_keep (h code (by simp)), ih fun c hc => h c (by simp [hc])]

def codesOf (s : String) : List Nat := codes s.toList

def ofCodes (cs : List Nat) : String := String.ofList (cs.flatMap keep)

theorem codesOf_ofCodes (cs : List Nat) (h : ∀ code ∈ cs, code ≤ mark.toNat) :
    codesOf (ofCodes cs) = cs := by
  simp [codesOf, ofCodes, codes_flatMap_keep cs h]

/-- The text that keeps a sequence of whole characters. -/
def ofWhole (s : String) : String := ofCodes (s.toList.map Char.toNat)

/-- A text for a reader of whole characters, with a stand-in for every half. -/
def toWhole (s : String) : String :=
  String.ofList ((codesOf s).map fun code => if isHalf code then '\ufffd' else Char.ofNat code)

/-- Every code point of a text as a text of its own. -/
def symbols (s : String) : List String := (codesOf s).map fun code => ofCodes [code]

/-- Whether a text holds a half that stands alone, and so has no encoding. -/
def hasHalf (s : String) : Bool := (codesOf s).any isHalf

/-- The order of texts by code points. -/
def order (s t : String) : Ordering := compare (codesOf s) (codesOf t)

def precedes (s t : String) : Bool := (order s t).isLT

end StateSpace.Text
