import FrameEngine.Asset.Id
import FrameEngine.Asset.Path
import Mathlib.Data.List.Basic

namespace FrameEngine.Asset

namespace AssetId

end AssetId

end FrameEngine.Asset
