import StakeAccounting.Text.Blank

/-!
# Token names

A token is named by a text, usually the address of its contract. Addresses are
spelt with mixed case and sometimes with blanks around them, so a name is
**normalised** when it is made: blanks at both ends are dropped and ASCII
letters are lower-cased. Two spellings name one token exactly where they agree
after that.
-/

namespace StakeAccounting

/-- **The name of a token**, normalised by `TokenId.ofText`. -/
structure TokenId where
  /-- The normalised text. -/
  text : String
deriving DecidableEq, Inhabited

namespace TokenId

/-- The name a text spells. -/
def ofText (s : String) : TokenId := ⟨foldCase (trimBlank s)⟩

/-- The form for listings. -/
def summary (t : TokenId) : String := "TokenId(" ++ t.text ++ ")"

instance : Ord TokenId := ⟨fun a b => compare a.text b.text⟩

end TokenId

end StakeAccounting
