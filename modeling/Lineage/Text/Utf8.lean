import Lineage.Text.Digit

namespace Lineage.Text

/-- Why bytes are no text. -/
inductive Utf8Flaw where
  | start
  | continuation
  | ending
  deriving DecidableEq, Repr

/-- A flaw in bytes: the first of them, where it stands and how many bytes the
    flaw takes up. -/
structure Utf8Error where
  flaw : Utf8Flaw
  first : UInt8
  position : Nat
  length : Nat
  deriving DecidableEq, Repr

/-- The wording of a flaw. -/
def Utf8Flaw.text : Utf8Flaw → String
  | start => "invalid start byte"
  | continuation => "invalid continuation byte"
  | ending => "unexpected end of data"

/-- The wording of an error. A single byte is named, several by their places. -/
def Utf8Error.message (error : Utf8Error) : String :=
  let place :=
    if error.length == 1 then
      "byte 0x" ++ hex 2 error.first.toNat ++ " in position " ++ toString error.position
    else
      "bytes in position " ++ toString error.position ++ "-" ++
        toString (error.position + error.length - 1)
  "'utf-8' codec can't decode " ++ place ++ ": " ++ error.flaw.text

/-- The bytes that go on with a character. -/
def isContinuation (b : UInt8) : Bool := 0x80 ≤ b && b ≤ 0xBF

/-- Whether a second byte can follow a first one of a longer form: no form is
    longer than needed, none stands for a surrogate or for more than the last
    code point. -/
def isSecond (first second : UInt8) : Bool :=
  isContinuation second &&
    (if first == 0xE0 then 0xA0 ≤ second
    else if first == 0xED then second < 0xA0
    else if first == 0xF0 then 0x90 ≤ second
    else if first == 0xF4 then second < 0x90
    else true)

/-- The six bits of a continuation byte. -/
def low (b : UInt8) : Nat := b.toNat % 0x40

/-- The characters of bytes, the first of which stands at `position`. -/
def decodeFrom (position : Nat) : List UInt8 → Except Utf8Error (List Char)
  | [] => pure []
  | a :: rest =>
    let refuse (flaw : Utf8Flaw) (length : Nat) : Except Utf8Error (List Char) :=
      throw ⟨flaw, a, position, length⟩
    if a < 0x80 then do
      let chars ← decodeFrom (position + 1) rest
      pure (Char.ofNat a.toNat :: chars)
    else if a < 0xC2 || 0xF4 < a then refuse .start 1
    else
      match rest with
      | [] => refuse .ending 1
      | b :: rest =>
        if !isSecond a b then refuse .continuation 1
        else if a < 0xE0 then do
          let chars ← decodeFrom (position + 2) rest
          pure (Char.ofNat (a.toNat % 0x20 * 0x40 + low b) :: chars)
        else
          match rest with
          | [] => refuse .ending 2
          | c :: rest =>
            if !isContinuation c then refuse .continuation 2
            else if a < 0xF0 then do
              let chars ← decodeFrom (position + 3) rest
              pure (Char.ofNat ((a.toNat % 0x10 * 0x40 + low b) * 0x40 + low c) :: chars)
            else
              match rest with
              | [] => refuse .ending 3
              | d :: rest =>
                if !isContinuation d then refuse .continuation 3
                else do
                  let chars ← decodeFrom (position + 4) rest
                  pure (Char.ofNat
                    (((a.toNat % 0x8 * 0x40 + low b) * 0x40 + low c) * 0x40 + low d) :: chars)

/-- The text that bytes stand for. -/
def decode (bytes : List UInt8) : Except Utf8Error String :=
  (decodeFrom 0 bytes).map String.ofList

/-- The characters with every line end written as a newline alone. -/
def unifyNewlines : List Char → List Char
  | [] => []
  | '\r' :: '\n' :: rest => '\n' :: unifyNewlines rest
  | '\r' :: rest => '\n' :: unifyNewlines rest
  | c :: rest => c :: unifyNewlines rest

/-- The characters at the start that take up at most so many bytes. -/
def takeBytes : Nat → List Char → List Char
  | _, [] => []
  | room, c :: rest =>
    if c.utf8Size ≤ room then c :: takeBytes (room - c.utf8Size) rest else []

/-- A text of more than fifty bytes is cut down to its start and its end. -/
def abridged (s : String) : String :=
  if s.utf8ByteSize > 50 then
    String.ofList (takeBytes 25 s.toList) ++ "..." ++
      String.ofList (takeBytes 24 s.toList.reverse).reverse
  else s

end Lineage.Text
