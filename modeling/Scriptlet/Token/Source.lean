import Scriptlet.Error
import Scriptlet.Token.Lexeme

/-!
# Tokens of a source

The tokens of a source are its lexemes that are not gaps, closed by the end of
input. A character with which no lexeme begins is an error at its place.
-/

namespace Scriptlet.Token

/-- The tokens of a source text. -/
def ofSource (file : String) (source : String) : Except SyntaxError (List Token) :=
  let cut := Lexeme.cutAll source.toList
  let position : Position := ⟨UInt32.ofNat cut.stop, file⟩
  match cut.rest with
  | [] => .ok (cut.lexemes.filterMap (Lexeme.token? file) ++ [eofAt position])
  | c :: _ => .error ⟨.unrecognised (String.singleton c), position⟩

end Scriptlet.Token
