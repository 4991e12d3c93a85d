import RegisterMigration.Language.Basic

/-!
# Carrying compiler specifications over

A compiler specification keeps its identifier where the new language declares it, and is
replaced by the default of the new language elsewhere. Nothing can go wrong.
-/

namespace RegisterMigration.Language

/-- An identifier, if the language declares it. -/
def declaredSpec? (new : Language) (id : String) : Option String :=
  (new.compilerSpec? id).map (·.id)

/-- An identifier, or the default of the language where there is none. -/
def specOrDefault (new : Language) (id : Option String) : String :=
  id.getD new.defaultCompilerSpec.id

/-- What an identifier of an older language becomes. -/
def carrySpec (new : Language) (id : String) : String :=
  new.specOrDefault (new.declaredSpec? id)

end RegisterMigration.Language
