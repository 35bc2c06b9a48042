/-!
# Symbols

Tables of the symbols that have a name. Each entry gives the name and the text that is set.
-/

namespace MathMarkup.Standard

/-- Names with the texts that are set for them. -/
abbrev SymbolTable := List (String × String)

def greekSmall : SymbolTable :=
  [("alpha", "α"), ("beta", "β"), ("gamma", "γ"), ("delta", "δ"), ("epsilon", "ϵ"),
    ("varepsilon", "ε"), ("zeta", "ζ"), ("eta", "η"), ("theta", "θ"), ("vartheta", "ϑ"),
    ("iota", "ι"), ("kappa", "κ"), ("varkappa", "ϰ"), ("lambda", "λ"), ("mu", "μ"), ("nu", "ν"),
    ("xi", "ξ"), ("pi", "π"), ("varpi", "ϖ"), ("rho", "ρ"), ("varrho", "ϱ"), ("sigma", "σ"),
    ("varsigma", "ς"), ("tau", "τ"), ("upsilon", "υ"), ("phi", "ϕ"), ("varphi", "φ"),
    ("chi", "χ"), ("psi", "ψ"), ("omega", "ω")]

/-- Capital Greek letters that differ from every Latin one. -/
def greekCapital : SymbolTable :=
  [("Gamma", "Γ"), ("Delta", "Δ"), ("Theta", "Θ"), ("Lambda", "Λ"), ("Xi", "Ξ"), ("Pi", "Π"),
    ("Sigma", "Σ"), ("Upsilon", "ϒ"), ("Phi", "Φ"), ("Psi", "Ψ"), ("Omega", "Ω")]

def letterlike : SymbolTable :=
  [("aleph", "ℵ"), ("hbar", "ℏ"), ("hslash", "ℏ"), ("imath", "ı"), ("jmath", "ȷ"), ("ell", "ℓ"),
    ("wp", "℘"), ("partial", "∂"), ("nabla", "∇"), ("infty", "∞"), ("emptyset", "∅"),
    ("varnothing", "∅"), ("forall", "∀"), ("exists", "∃"), ("nexists", "∄"), ("neg", "¬"),
    ("lnot", "¬"), ("angle", "∠"), ("triangle", "△"), ("prime", "′"), ("surd", "√"),
    ("top", "⊤"), ("bot", "⊥"), ("setminus", "∖"), ("flat", "♭"), ("natural", "♮"),
    ("sharp", "♯"), ("clubsuit", "♣"), ("diamondsuit", "♢"), ("heartsuit", "♡"),
    ("spadesuit", "♠"), ("checkmark", "✓"), ("maltese", "✠"), ("eth", "ð"), ("Micro", "µ"),
    ("P", "¶"), ("S", "§"), ("copyright", "©"), ("circledR", "®"), ("pounds", "£"),
    ("vdots", "⋮"), ("|", "‖")]

def spaces : SymbolTable :=
  [(" ", " "), (",", "\u2006"), (":", "\u205f"), (">", "\u205f"), (";", "\u2005"),
    ("enspace", "\u2005\u2005"), ("quad", "\u2005\u2005\u2005\u2005"),
    ("qquad", "\u2005\u2005\u2005\u2005\u2005\u2005\u2005\u2005")]

/-- Characters that would otherwise not be set as they are. -/
def escapes : SymbolTable :=
  [("#", "#"), ("$", "$"), ("%", "%"), ("&", "&"), ("_", "_"), ("\\", "\\"), ("^", "^"),
    ("~", "~")]

def largeOperators : SymbolTable :=
  [("sum", "∑"), ("prod", "∏"), ("coprod", "∐"), ("int", "∫"), ("intop", "∫"), ("smallint", "∫"),
    ("iint", "∬"), ("iiint", "∭"), ("oint", "∮"), ("ointop", "∮"), ("bigcap", "⋂"),
    ("bigcup", "⋃"), ("bigvee", "⋁"), ("bigwedge", "⋀"), ("bigodot", "⨀"), ("bigoplus", "⨁"),
    ("bigotimes", "⨂"), ("biguplus", "⨄"), ("bigsqcap", "⨅"), ("bigsqcup", "⨆")]

def binaryOperators : SymbolTable :=
  [("pm", "±"), ("mp", "∓"), ("times", "×"), ("div", "÷"), ("ast", "*"), ("star", "⭑"),
    ("circ", "⚬"), ("bullet", "∙"), ("cdot", "·"), ("centerdot", "·"), ("cap", "∩"),
    ("cup", "∪"), ("uplus", "⊎"), ("sqcap", "⊓"), ("sqcup", "⊔"), ("vee", "∨"), ("lor", "∨"),
    ("wedge", "∧"), ("land", "∧"), ("wr", "≀"), ("amalg", "⨿"), ("diamond", "◇"),
    ("bigcirc", "◯"), ("oplus", "⊕"), ("ominus", "⊖"), ("otimes", "⊗"), ("oslash", "⊘"),
    ("odot", "⊙"), ("dagger", "†"), ("dag", "†"), ("ddagger", "‡"), ("ddag", "‡"),
    ("bigtriangleup", "△"), ("bigtriangledown", "▽"), ("triangleleft", "◁"),
    ("triangleright", "▹"), ("lhd", "⊲"), ("rhd", "⊳"), ("unlhd", "⊴"), ("unrhd", "⊵")]

def relations : SymbolTable :=
  [("le", "≤"), ("leq", "≤"), ("ge", "≥"), ("geq", "≥"), ("ne", "≠"), ("neq", "≠"), ("ll", "≪"),
    ("gg", "≫"), ("approx", "≈"), ("equiv", "≡"), ("sim", "∼"), ("simeq", "≃"), ("cong", "≅"),
    ("propto", "∝"), ("doteq", "≐"), ("prec", "≺"), ("succ", "≻"), ("preceq", "⪯"),
    ("succeq", "⪰"), ("in", "∈"), ("notin", "∉"), ("ni", "∋"), ("subset", "⊂"), ("supset", "⊃"),
    ("subseteq", "⊆"), ("supseteq", "⊇"), ("sqsubseteq", "⊑"), ("sqsupseteq", "⊒"), ("mid", "∣"),
    ("parallel", "∥"), ("perp", "⟂"), ("vdash", "⊢"), ("dashv", "⊣"), ("models", "⊨"),
    ("leftarrow", "←"), ("gets", "←"), ("rightarrow", "→"), ("to", "→"), ("leftrightarrow", "↔"),
    ("uparrow", "↑"), ("downarrow", "↓"), ("Leftarrow", "⇐"), ("Rightarrow", "⇒"),
    ("Leftrightarrow", "⇔"), ("mapsto", "↦"), ("implies", "⟹"), ("iff", "⟺"),
    ("leftrightharpoons", "⇋"), ("rightleftharpoons", "⇌")]

def openings : SymbolTable :=
  [("\x7b", "\x7b"), ("lbrace", "\x7b"), ("langle", "⟨"), ("lgroup", "⟮"), ("lfloor", "⌊"),
    ("lceil", "⌈")]

def closings : SymbolTable :=
  [("\x7d", "\x7d"), ("rbrace", "\x7d"), ("rangle", "⟩"), ("rgroup", "⟯"), ("rfloor", "⌋"),
    ("rceil", "⌉")]

def punctuation : SymbolTable :=
  [("ldotp", "."), ("cdotp", "·"), ("colon", ":")]

def ellipses : SymbolTable :=
  [("ldots", "…"), ("dots", "…"), ("cdots", "⋯"), ("ddots", "⋱")]

/-- Accents, by the combining mark that each of them sets. -/
def accents : SymbolTable :=
  [("grave", "\u0300"), ("acute", "\u0301"), ("hat", "\u0302"), ("widehat", "\u0302"),
    ("tilde", "\u0303"), ("widetilde", "\u0303"), ("bar", "\u0304"), ("breve", "\u0306"),
    ("dot", "\u0307"), ("ddot", "\u0308"), ("check", "\u030c"), ("vec", "\u20d7")]

/-- Capital Greek letters, and a small one, that look like the Latin letter given. -/
def latinLookalikes : SymbolTable :=
  [("Alpha", "A"), ("Beta", "B"), ("Epsilon", "E"), ("Zeta", "Z"), ("Eta", "H"), ("Iota", "I"),
    ("Kappa", "K"), ("Mu", "M"), ("Nu", "N"), ("Omicron", "O"), ("omicron", "o"), ("Rho", "P"),
    ("Tau", "T"), ("Chi", "X")]

/-- Operators that are set as their name. -/
def operatorNames : List String :=
  ["arccos", "arcsin", "arctan", "arg", "cos", "cosh", "cot", "coth", "csc", "deg", "det", "dim",
    "exp", "gcd", "hom", "inf", "ker", "lg", "lim", "ln", "log", "max", "min", "sec", "sin",
    "sinh", "sup", "tan", "tanh", "Pr"]

end MathMarkup.Standard
