import Md5Simd.Rfc1321.Refine
import Md5Simd.Framing
import Md5Simd.DigestCompat
import Md5Simd.Engine
import Md5Simd.Simd.Schedule
import Md5Simd.Simd.SingleStream
import Md5Simd.Resume
import Md5Simd.Streams
import Md5Simd.Reader
import Md5Simd.HexText
import Md5Simd.Grouping
import Md5Simd.Workload
import Md5Simd.Reports
import Md5Simd.Session
import Md5Simd.Safety
import Md5Simd.Effects
