/-!
Byte strings: the contents of files, of paths and of the pipes to a translator.
-/

namespace SourceDesk

/-- A string of bytes. -/
abbrev Bytes := List UInt8

end SourceDesk
