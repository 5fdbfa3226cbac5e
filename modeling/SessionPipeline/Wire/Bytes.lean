/-!
Byte strings, and text as its UTF-8 bytes.
-/
namespace SessionPipeline

abbrev Bytes := List UInt8

namespace Bytes

def ofString (s : String) : Bytes := s.toUTF8.data.toList

def toString? (b : Bytes) : Option String := String.fromUTF8? ⟨b.toArray⟩

def untilZero (b : Bytes) : Bytes := b.takeWhile (· != 0)

end Bytes
end SessionPipeline
