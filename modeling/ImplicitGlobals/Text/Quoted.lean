/-!
# Single-quoted literals

A literal stands between single quotes. Inside it a quote, a backslash, a line
feed and a carriage return are written as two characters, all else as itself,
so a literal never breaks a line. `decode` undoes `encode`.
-/

namespace ImplicitGlobals.Text.Quoted

/-- The way one character is written inside the quotes. -/
def encodeChar (c : Char) : List Char :=
  if c = '\'' then ['\\', '\'']
  else if c = '\\' then ['\\', '\\']
  else if c = '\n' then ['\\', 'n']
  else if c = '\r' then ['\\', 'r']
  else [c]

def encode (cs : List Char) : List Char := cs.flatMap encodeChar

/-- The character that `\` before `c` stands for. -/
def unescape (c : Char) : Char :=
  if c = 'n' then '\n' else if c = 'r' then '\r' else c

/-- Reads the inside of a literal; a trailing lone backslash is refused. -/
def decode : List Char → Option (List Char)
  | [] => some []
  | '\\' :: c :: rest => (decode rest).map (unescape c :: ·)
  | c :: rest => if c = '\\' then none else (decode rest).map (c :: ·)

/-- `s` as a single-quoted literal. -/
def quote (s : String) : String :=
  String.ofList ('\'' :: encode s.toList ++ ['\''])

theorem toList_quote (s : String) : (quote s).toList = '\'' :: (encode s.toList ++ ['\'']) := by
  simp [quote]

@[simp] theorem encode_nil : encode [] = [] := rfl

@[simp] theorem encode_cons (c : Char) (cs : List Char) :
    encode (c :: cs) = encodeChar c ++ encode cs := by
  simp [encode]

theorem decode_cons {c : Char} (h : c ≠ '\\') (rest : List Char) :
    decode (c :: rest) = (decode rest).map (c :: ·) := by
  rw [decode.eq_3 _ _ (by simp [h])]
  simp [h]

theorem decode_encodeChar_append (c : Char) (rest : List Char) :
    decode (encodeChar c ++ rest) = (decode rest).map (c :: ·) := by
  unfold encodeChar
  split
  · next h => simp [decode, unescape, h]
  split
  · next h => simp [decode, unescape, h]
  split
  · next h => simp [decode, unescape, h]
  split
  · next h => simp [decode, unescape, h]
  · next hs _ _ => simpa using decode_cons hs rest

theorem decode_encode (cs : List Char) : decode (encode cs) = some cs := by
  induction cs with
  | nil => rfl
  | cons c cs ih => simp [decode_encodeChar_append, ih]

theorem encode_injective {a b : List Char} (h : encode a = encode b) : a = b := by
  have := congrArg decode h
  simpa [decode_encode] using this

end ImplicitGlobals.Text.Quoted
