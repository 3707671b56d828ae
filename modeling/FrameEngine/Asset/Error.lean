import FrameEngine.Asset.FileTree
import FrameEngine.Asset.Id

namespace FrameEngine.Asset

inductive AssetError
  | io (cause : FileError)
  | unknownAsset (id : AssetId)
  | notFound (path : String)
  | invalidData (text : String)
  deriving DecidableEq

namespace AssetError

def message : AssetError → String
  | .io cause => "I/O error: " ++ cause.message
  | .unknownAsset id => "Unknown asset id: " ++ id.text
  | .notFound path => "Asset not found: " ++ path
  | .invalidData text => "Invalid data: " ++ text

def isMissing : AssetError → Bool
  | .unknownAsset _ | .notFound _ => true
  | .io cause => cause = .notFound
  | .invalidData _ => false

end AssetError

end FrameEngine.Asset
