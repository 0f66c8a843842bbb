import StreamGrammar.Policy
import StreamGrammar.Primitive.Alphabet

/-! # Vocabulary

The names under which the parts of the library are offered to users of its textual interface, and the
constants that can be asked for by name. -/

namespace StreamGrammar.Vocabulary

def names : List String :=
  ["CombinatorError", "Done", "ErrorChain", "ErrorEntry", "ErrorKind", "Failed", "Incomplete",
    "IncompleteInputError", "InfiniteLoopError", "Input", "Needed", "Outcome", "ParseFailedError",
    "Parser", "Step", "StreamPolicy", "TrailingInputError", "__version__", "alpha", "alphanumeric",
    "alt", "binary", "bind", "char", "cond", "cond_reduce", "context", "count", "delimited", "digit",
    "discard", "eof", "finish", "fold_many0", "fold_many1", "hex_digit", "lazy", "line_ending",
    "many0", "many1", "many_m_n", "many_till", "map_", "map_res", "multispace", "none_of", "not_",
    "oct_digit", "one_of", "opt", "pair", "parse_complete", "peek", "preceded", "recognize",
    "satisfy", "separated_list0", "separated_list1", "separated_pair", "sequence", "space", "tag",
    "tag_no_case", "take", "take_till1", "take_until", "take_while1", "terminated", "trace",
    "tuple_", "value", "verify"]

def constants : List (String × String) :=
  [("DEFAULT_STREAM_POLICY", Policy.standard.text),
    ("DIGITS", Alphabet.digits),
    ("HEX_DIGITS", Alphabet.hexDigits),
    ("OCT_DIGITS", Alphabet.octDigits),
    ("ASCII_LETTERS", Alphabet.letters),
    ("SPACE_CHARS", Alphabet.spaces),
    ("MULTISPACE_CHARS", Alphabet.multispaces)]

def constant? (name : String) : Option String :=
  constants.lookup name

end StreamGrammar.Vocabulary
