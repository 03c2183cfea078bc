/-! # Text in bytes

Reading text from bytes in UTF-8. A sequence that is not well formed gives no character; `decode?`
refuses it and `decodeLossy` leaves it out. -/

namespace WikiFeed.Text

def continues (b : UInt8) : Bool := b &&& 0xC0 == 0x80

def payload (b : UInt8) : Nat := (b &&& 0x3F).toNat

/-- The character at the start of the bytes with the number of further bytes it takes; or how many
further bytes belong to a broken character. -/
def firstChar (a : UInt8) (r : List UInt8) : Except Nat (Char × Nat) :=
  let n := a.toNat
  if n < 0x80 then .ok (Char.ofNat n, 0)
  else if 0xC2 ≤ n && n < 0xE0 then
    match r with
    | b :: _ => if continues b then .ok (Char.ofNat ((n - 0xC0) * 64 + payload b), 1) else .error 0
    | [] => .error 0
  else if 0xE0 ≤ n && n < 0xF0 then
    match r with
    | b :: r' =>
      let low := if n == 0xE0 then 0xA0 else 0x80
      let high := if n == 0xED then 0x9F else 0xBF
      if low ≤ b.toNat && b.toNat ≤ high then
        match r' with
        | c :: _ =>
          if continues c then
            .ok (Char.ofNat (((n - 0xE0) * 64 + payload b) * 64 + payload c), 2)
          else .error 1
        | [] => .error 1
      else .error 0
    | [] => .error 0
  else if 0xF0 ≤ n && n < 0xF5 then
    match r with
    | b :: r' =>
      let low := if n == 0xF0 then 0x90 else 0x80
      let high := if n == 0xF4 then 0x8F else 0xBF
      if low ≤ b.toNat && b.toNat ≤ high then
        match r' with
        | c :: r'' =>
          if continues c then
            match r'' with
            | d :: _ =>
              if continues d then
                .ok (Char.ofNat
                  ((((n - 0xF0) * 64 + payload b) * 64 + payload c) * 64 + payload d), 3)
              else .error 2
            | [] => .error 2
          else .error 1
        | [] => .error 1
      else .error 0
    | [] => .error 0
  else .error 0

def decodeFrom (acc : List Char) : List UInt8 → List Char
  | [] => acc
  | a :: r =>
    match firstChar a r with
    | .ok (c, n) => decodeFrom (c :: acc) (r.drop n)
    | .error n => decodeFrom acc (r.drop n)
termination_by bs => bs.length
decreasing_by all_goals (simp only [List.length_drop, List.length_cons]; omega)

def decodeLossy (bytes : List UInt8) : String := String.ofList (decodeFrom [] bytes).reverse

def decode? (bytes : List UInt8) : Option String := String.fromUTF8? bytes.toByteArray

def encode (s : String) : List UInt8 := s.toList.flatMap String.utf8EncodeChar

end WikiFeed.Text
