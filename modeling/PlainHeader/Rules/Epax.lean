import PlainHeader.Rules.Basic

/-!
# The table of the EPAX interface

The order of the substitutions matters: `std::string` runs before the remaining vector
rules and leaves `std::vector<const char*>&` and `const const` behind for later entries.
-/

namespace PlainHeader.Rules

/-- What `namespace EPAX` becomes: C linkage opened for C++ readers only. -/
def linkageOpen : Text := "#ifdef __cplusplus\nextern \"C\"\n\x7b\n#endif".toList

/-- What the end of the namespace becomes. -/
def linkageClose : Text := "#ifdef __cplusplus\n\x7d\n#endif".toList

/-- The rules for the EPAX interface header. -/
def epax : Rules where
  objects :=
    ["BIN".toList, "SECT".toList, "FUNC".toList, "CFG".toList, "LOOP".toList, "BBL".toList,
     "INSN".toList, "SYM".toList, "FLOW".toList]
  substitutions :=
    [("namespace EPAX \x7b".toList, linkageOpen),
     ("Interface_hpp".toList, "Interface_h".toList),
     ("\x7d // namespace EPAX".toList, linkageClose),
     ("std::vector<EPAX_bbl>&".toList, "EPAX_bbl*".toList),
     ("std::string".toList, "const char*".toList),
     ("std::vector<EPAX_insn>&".toList, "EPAX_insn*".toList),
     ("const const".toList, "const".toList),
     ("std::vector<const char*>&".toList, "char**".toList),
     ("std::vector<uint64_t>&".toList, "uint64_t*".toList),
     ("std::vector<EPAX_func>&".toList, "EPAX_func*".toList),
     ("bool".toList, "uint32_t".toList),
     ("Interface.hpp".toList, "Interface.h".toList),
     ("std::vector<std::string>&".toList, "char**".toList)]
  removed := ["#include <string>".toList, "#include <iostream>".toList, "#include <vector>".toList]

end PlainHeader.Rules
