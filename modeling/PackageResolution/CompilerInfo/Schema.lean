import PackageResolution.CompilerInfo
import PackageResolution.Schema
import PackageResolution.Settings.Schema
/-!
# Compiler information in documents
-/
namespace PackageResolution.CompilerInfo

/-- The four lists, none of which may be left out. -/
def record : Schema.Record CompilerInfo where
  name := "CompilerInfo"
  fields := [
    { name := "cflags", isRequired := true,
      read := fun v ci => ({ ci with cflags := · }) <$> Schema.list Schema.text v },
    { name := "lflags", isRequired := true,
      read := fun v ci => ({ ci with lflags := · }) <$> Schema.list Schema.text v },
    { name := "aflags", isRequired := true,
      read := fun v ci => ({ ci with aflags := · }) <$> Schema.list Schema.text v },
    { name := "includes", isRequired := true,
      read := fun v ci => ({ ci with includes := · }) <$> Schema.list Schema.path v }]
  initial := {}

/-- Reads compiler information. -/
def ofValue : Schema CompilerInfo := record.readExactly

/-- Compiler information as a value, unless one of the directories is no text. -/
def toValue? (ci : CompilerInfo) : Option Value := do
  let includes ← ci.includes.mapM Path.text?
  return .table [("cflags", Settings.listValue ci.cflags),
    ("lflags", Settings.listValue ci.lflags), ("aflags", Settings.listValue ci.aflags),
    ("includes", Settings.listValue includes)]

end PackageResolution.CompilerInfo
