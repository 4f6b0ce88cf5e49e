/-!
# Environments

What a program is told through variables: a value for some names. The home directory is the value
of `HOME`, unless that is empty.
-/

namespace ProjectScript

/-- The values of variables; none for a variable that is not set. -/
abbrev Environment := String → Option String

/-- The home directory. -/
def Environment.home? (env : Environment) : Option String := (env "HOME").filter (!·.isEmpty)

end ProjectScript
