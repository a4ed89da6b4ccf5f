/-! # Help and version texts

The headings of the help are shown in bold type by terminal escape sequences.
-/

namespace JvmLisp.Command

def versionText : String := "cafelisp 0.1.0\n"

def usageHint : String := "Try 'cafelisp --help' for more information.\n"

def helpText : String :=
  "\x1b[1mcafelisp\x1b[0m - Compile a tiny Lisp to a JVM class file

\x1b[1mUSAGE:\x1b[0m
    cafelisp [OPTIONS] [FILE]

\x1b[1mARGUMENTS:\x1b[0m
    [FILE]    Source file; omit or use - to read standard input

\x1b[1mOPTIONS:\x1b[0m
    -o, --output-dir DIR   Directory for the class file (default: current)
    --class-name NAME      Name of the generated class (default: MyClass)
    --dump                 Print the constant pool and code instead of writing
    -v, --verbose          Log compilation details (RUST_LOG overrides)
    -h, --help             Print help information
    -V, --version          Print version information

\x1b[1mLANGUAGE:\x1b[0m
    (print arg...)         Print each argument, then a newline
    (+ arg...)             Sum of 64-bit integers; (+) is 0
    \"text\"                 String literal (escapes: \\n \\t \\r \\\\ \\\")
    ; comment              Ignored to end of line

\x1b[1mEXAMPLES:\x1b[0m
    cafelisp hello.lisp                Write MyClass.class
    echo '(print (+ 1 2))' | cafelisp  Compile from standard input
    cafelisp --dump hello.lisp         Show what would be written

For more information, visit https://github.com/ndouglas/cafelisp
"

end JvmLisp.Command
