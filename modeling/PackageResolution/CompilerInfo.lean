import PackageResolution.Fingerprint
/-!
# Compiler information

The flags and include directories with which one package is compiled. Flags are the package's own;
include directories also cover the public headers of all that it depends on.
-/
namespace PackageResolution

/-- The flags and include directories of a package. -/
structure CompilerInfo where
  cflags : List String := []
  lflags : List String := []
  aflags : List String := []
  /-- The include directories in search order. -/
  includes : List Path := []
  deriving DecidableEq, Inhabited

namespace CompilerInfo

def includeArgs (ci : CompilerInfo) : List String := ci.includes.map fun dir => "-I" ++ dir.text

/-- The arguments with which C is compiled (`compile_args`). -/
def compileArgs (ci : CompilerInfo) : List String := ci.cflags ++ ci.includeArgs

/-- The arguments with which assembler sources are assembled (`assemble_args`). -/
def assembleArgs (ci : CompilerInfo) : List String := ci.aflags ++ ci.includeArgs

/-- What is fed to the fingerprint: each list after its name. -/
def parts (ci : CompilerInfo) : List Fingerprint.Part :=
  [.text "cflags", .texts ci.cflags, .text "lflags", .texts ci.lflags, .text "aflags",
    .texts ci.aflags, .text "includes"] ++ ci.includes.map .path

def fingerprintBytes (ci : CompilerInfo) : List UInt8 := Fingerprint.bytesOfParts ci.parts

/-- A digest of all four lists (`fingerprint`). -/
def fingerprint (ci : CompilerInfo) : String := Digest.sha256Hex ci.fingerprintBytes

def shortFingerprint (ci : CompilerInfo) : String := Fingerprint.shorten ci.fingerprint

end CompilerInfo
end PackageResolution
