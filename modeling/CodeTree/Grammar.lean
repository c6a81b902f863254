import CodeTree.Language
import CodeTree.Grammar.CFamily
import CodeTree.Grammar.Ecma
import CodeTree.Grammar.Java
import CodeTree.Grammar.Python
import CodeTree.Grammar.Rust

/-!
# The grammar of each language

A grammar is the list of a language's productions, in declaration order.
-/

namespace CodeTree.Language

def grammar : Language → List Production
  | .c => Grammar.c
  | .cpp => Grammar.cpp
  | .java => Grammar.java
  | .javascript => Grammar.javascript
  | .python => Grammar.python
  | .rust => Grammar.rust
  | .typescript => Grammar.typescript
  | .tsx => Grammar.tsx

end CodeTree.Language
