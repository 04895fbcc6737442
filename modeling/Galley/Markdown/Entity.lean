/-!
# Character references

Characters may be written by name or by number between an ampersand and a semicolon.
Old names are also known where other characters stand between them and the semicolon.
-/

namespace Galley
namespace Markdown
namespace Entity

set_option maxRecDepth 4000 in
/-- Names that need no semicolon behind them, and their code points. -/
def shortNames : List (String × Nat) := [
  ("AElig", 0xc6), ("AMP", 0x26), ("Aacute", 0xc1), ("Acirc", 0xc2), ("Agrave", 0xc0),
  ("Aring", 0xc5), ("Atilde", 0xc3), ("Auml", 0xc4), ("COPY", 0xa9), ("Ccedil", 0xc7),
  ("ETH", 0xd0), ("Eacute", 0xc9), ("Ecirc", 0xca), ("Egrave", 0xc8), ("Euml", 0xcb),
  ("GT", 0x3e), ("Iacute", 0xcd), ("Icirc", 0xce), ("Igrave", 0xcc), ("Iuml", 0xcf),
  ("LT", 0x3c), ("Ntilde", 0xd1), ("Oacute", 0xd3), ("Ocirc", 0xd4), ("Ograve", 0xd2),
  ("Oslash", 0xd8), ("Otilde", 0xd5), ("Ouml", 0xd6), ("QUOT", 0x22), ("REG", 0xae),
  ("THORN", 0xde), ("Uacute", 0xda), ("Ucirc", 0xdb), ("Ugrave", 0xd9), ("Uuml", 0xdc),
  ("Yacute", 0xdd), ("aacute", 0xe1), ("acirc", 0xe2), ("acute", 0xb4), ("aelig", 0xe6),
  ("agrave", 0xe0), ("amp", 0x26), ("aring", 0xe5), ("atilde", 0xe3), ("auml", 0xe4),
  ("brvbar", 0xa6), ("ccedil", 0xe7), ("cedil", 0xb8), ("cent", 0xa2), ("copy", 0xa9),
  ("curren", 0xa4), ("deg", 0xb0), ("divide", 0xf7), ("eacute", 0xe9), ("ecirc", 0xea),
  ("egrave", 0xe8), ("eth", 0xf0), ("euml", 0xeb), ("frac12", 0xbd), ("frac14", 0xbc),
  ("frac34", 0xbe), ("gt", 0x3e), ("iacute", 0xed), ("icirc", 0xee), ("iexcl", 0xa1),
  ("igrave", 0xec), ("iquest", 0xbf), ("iuml", 0xef), ("laquo", 0xab), ("lt", 0x3c),
  ("macr", 0xaf), ("micro", 0xb5), ("middot", 0xb7), ("nbsp", 0xa0), ("not", 0xac),
  ("ntilde", 0xf1), ("oacute", 0xf3), ("ocirc", 0xf4), ("ograve", 0xf2), ("ordf", 0xaa),
  ("ordm", 0xba), ("oslash", 0xf8), ("otilde", 0xf5), ("ouml", 0xf6), ("para", 0xb6),
  ("plusmn", 0xb1), ("pound", 0xa3), ("quot", 0x22), ("raquo", 0xbb), ("reg", 0xae),
  ("sect", 0xa7), ("shy", 0xad), ("sup1", 0xb9), ("sup2", 0xb2), ("sup3", 0xb3), ("szlig", 0xdf),
  ("thorn", 0xfe), ("times", 0xd7), ("uacute", 0xfa), ("ucirc", 0xfb), ("ugrave", 0xf9),
  ("uml", 0xa8), ("uuml", 0xfc), ("yacute", 0xfd), ("yen", 0xa5), ("yuml", 0xff)]

set_option maxRecDepth 4000 in
/-- Names that need a semicolon, and their code points. -/
def longNames : List (String × Nat) := [
  ("Alpha", 0x391), ("Beta", 0x392), ("Chi", 0x3a7), ("Dagger", 0x2021), ("Delta", 0x394),
  ("Epsilon", 0x395), ("Eta", 0x397), ("Gamma", 0x393), ("Iota", 0x399), ("Kappa", 0x39a),
  ("Lambda", 0x39b), ("Mu", 0x39c), ("Nu", 0x39d), ("OElig", 0x152), ("Omega", 0x3a9),
  ("Omicron", 0x39f), ("Phi", 0x3a6), ("Pi", 0x3a0), ("Prime", 0x2033), ("Psi", 0x3a8),
  ("Rho", 0x3a1), ("Scaron", 0x160), ("Sigma", 0x3a3), ("Tau", 0x3a4), ("Theta", 0x398),
  ("Upsilon", 0x3a5), ("Xi", 0x39e), ("Yuml", 0x178), ("Zeta", 0x396), ("alefsym", 0x2135),
  ("alpha", 0x3b1), ("and", 0x2227), ("ang", 0x2220), ("asymp", 0x2248), ("bdquo", 0x201e),
  ("beta", 0x3b2), ("bull", 0x2022), ("cap", 0x2229), ("chi", 0x3c7), ("circ", 0x2c6),
  ("clubs", 0x2663), ("cong", 0x2245), ("crarr", 0x21b5), ("cup", 0x222a), ("dArr", 0x21d3),
  ("dagger", 0x2020), ("darr", 0x2193), ("delta", 0x3b4), ("diams", 0x2666), ("empty", 0x2205),
  ("emsp", 0x2003), ("ensp", 0x2002), ("epsilon", 0x3b5), ("equiv", 0x2261), ("eta", 0x3b7),
  ("euro", 0x20ac), ("exist", 0x2203), ("fnof", 0x192), ("forall", 0x2200), ("frasl", 0x2044),
  ("gamma", 0x3b3), ("ge", 0x2265), ("hArr", 0x21d4), ("harr", 0x2194), ("hearts", 0x2665),
  ("hellip", 0x2026), ("image", 0x2111), ("infin", 0x221e), ("int", 0x222b), ("iota", 0x3b9),
  ("isin", 0x2208), ("kappa", 0x3ba), ("lArr", 0x21d0), ("lambda", 0x3bb), ("lang", 0x27e8),
  ("larr", 0x2190), ("lceil", 0x2308), ("ldquo", 0x201c), ("le", 0x2264), ("lfloor", 0x230a),
  ("lowast", 0x2217), ("loz", 0x25ca), ("lrm", 0x200e), ("lsaquo", 0x2039), ("lsquo", 0x2018),
  ("mdash", 0x2014), ("minus", 0x2212), ("mu", 0x3bc), ("nabla", 0x2207), ("ndash", 0x2013),
  ("ne", 0x2260), ("ni", 0x220b), ("notin", 0x2209), ("nsub", 0x2284), ("nu", 0x3bd),
  ("oelig", 0x153), ("oline", 0x203e), ("omega", 0x3c9), ("omicron", 0x3bf), ("oplus", 0x2295),
  ("or", 0x2228), ("otimes", 0x2297), ("part", 0x2202), ("permil", 0x2030), ("perp", 0x22a5),
  ("phi", 0x3c6), ("pi", 0x3c0), ("piv", 0x3d6), ("prime", 0x2032), ("prod", 0x220f),
  ("prop", 0x221d), ("psi", 0x3c8), ("rArr", 0x21d2), ("radic", 0x221a), ("rang", 0x27e9),
  ("rarr", 0x2192), ("rceil", 0x2309), ("rdquo", 0x201d), ("real", 0x211c), ("rfloor", 0x230b),
  ("rho", 0x3c1), ("rlm", 0x200f), ("rsaquo", 0x203a), ("rsquo", 0x2019), ("sbquo", 0x201a),
  ("scaron", 0x161), ("sdot", 0x22c5), ("sigma", 0x3c3), ("sigmaf", 0x3c2), ("sim", 0x223c),
  ("spades", 0x2660), ("sub", 0x2282), ("sube", 0x2286), ("sum", 0x2211), ("sup", 0x2283),
  ("supe", 0x2287), ("tau", 0x3c4), ("there4", 0x2234), ("theta", 0x3b8), ("thetasym", 0x3d1),
  ("thinsp", 0x2009), ("tilde", 0x2dc), ("trade", 0x2122), ("uArr", 0x21d1), ("uarr", 0x2191),
  ("upsih", 0x3d2), ("upsilon", 0x3c5), ("weierp", 0x2118), ("xi", 0x3be), ("zeta", 0x3b6),
  ("zwj", 0x200d), ("zwnj", 0x200c), ("apos", 0x27)]

/-- Numbers of control characters that stand for printed characters. -/
def reassigned : List (Nat × Nat) := [
  (0x80, 0x20ac), (0x81, 0x81), (0x82, 0x201a), (0x83, 0x192), (0x84, 0x201e), (0x85, 0x2026),
  (0x86, 0x2020), (0x87, 0x2021), (0x88, 0x2c6), (0x89, 0x2030), (0x8a, 0x160), (0x8b, 0x2039),
  (0x8c, 0x152), (0x8d, 0x8d), (0x8e, 0x17d), (0x8f, 0x8f), (0x90, 0x90), (0x91, 0x2018),
  (0x92, 0x2019), (0x93, 0x201c), (0x94, 0x201d), (0x95, 0x2022), (0x96, 0x2013), (0x97, 0x2014),
  (0x98, 0x2dc), (0x99, 0x2122), (0x9a, 0x161), (0x9b, 0x203a), (0x9c, 0x153), (0x9d, 0x9d),
  (0x9e, 0x17e), (0x9f, 0x178)]

/-- Numbers that stand for nothing: control characters and code points that are no
characters. -/
def isVoid (number : Nat) : Bool :=
  (number != 0 && number < 9) || number == 0x0b || (0x0e ≤ number && number < 0x20)
    || number == 0x7f || (0xfdd0 ≤ number && number ≤ 0xfdef) || 0xfffe ≤ number % 0x10000

/-- The characters that a number stands for. -/
def ofNumber (number : Nat) : List Char :=
  match reassigned.lookup number with
  | some code => [Char.ofNat code]
  | none =>
      if number = 0 ∨ 0x10ffff < number ∨ (0xd800 ≤ number ∧ number < 0xe000) then ['\ufffd']
      else if isVoid number then []
      else [Char.ofNat number]

/-- The number that digits denote in a base of at most sixteen. -/
def ofDigits (base : Nat) (digits : List Char) : Nat :=
  digits.foldl (fun number digit =>
    let code := digit.toNat
    number * base +
      (if code < 0x3a then code - 0x30 else if code < 0x47 then code - 0x37 else code - 0x57)) 0

/-- Whether a character is a hexadecimal digit. -/
def isHexadecimal (character : Char) : Bool :=
  character.isDigit || ('a' ≤ character && character ≤ 'f') || ('A' ≤ character && character ≤ 'F')

/-- The characters that a name stands for; an unknown name stands for itself.  A short
name at its start is known too, the longest one if there are several. -/
def ofName (name : List Char) : List Char :=
  let short (count : Nat) : Option (List Char) :=
    (shortNames.lookup (String.ofList (name.take count))).map fun code =>
      Char.ofNat code :: name.drop count ++ [';']
  match (shortNames ++ longNames).lookup (String.ofList name) with
  | some code => [Char.ofNat code]
  | none =>
      let counts := ((List.range name.length).reverse).filter (2 ≤ ·)
      (counts.findSome? short).getD ('&' :: name ++ [';'])

/-- Characters of a name. -/
def isNameChar (character : Char) : Bool :=
  ['\t', '\n', '\x0c', ' ', '<', '&', '#', ';'].all (· != character)

/-- A reference behind an ampersand: its length with the semicolon, and what it stands
for. -/
def form? (text : List Char) : Option (Nat × List Char) :=
  let closed (inner : List Char) (before : Nat) (least most : Nat) (meaning : List Char) :=
    if least ≤ inner.length ∧ inner.length ≤ most
        ∧ (text.drop (before + inner.length)).head? = some ';' then
      some (before + inner.length + 1, meaning)
    else none
  match text with
  | '#' :: mark :: rest =>
      if mark = 'x' ∨ mark = 'X' then
        let digits := rest.takeWhile isHexadecimal
        closed digits 2 1 digits.length (ofNumber (ofDigits 16 digits))
      else
        let digits := (mark :: rest).takeWhile Char.isDigit
        closed digits 1 1 7 (ofNumber (ofDigits 10 digits))
  | _ =>
      let name := text.takeWhile isNameChar
      closed name 0 1 32 (ofName name)

/-- Replace references by what they stand for, after a number of characters that belong
to a reference already replaced. -/
def replaceFrom : Nat → List Char → List Char
  | _, [] => []
  | skipped + 1, _ :: rest => replaceFrom skipped rest
  | 0, character :: rest =>
      match if character = '&' then form? rest else none with
      | some (length, meaning) => meaning ++ replaceFrom length rest
      | none => character :: replaceFrom 0 rest

/-- Replace references by what they stand for. -/
def replace (text : List Char) : List Char :=
  replaceFrom 0 text

end Entity
end Markdown
end Galley
